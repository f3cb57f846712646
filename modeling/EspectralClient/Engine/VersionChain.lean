/-
Version inheritance (`native/engine/src/resolver.rs`, `dedupe_by_name`, `merge_args`, `resolve_version_chain_with`). A
version JSON may name a parent; the resolver fetches the parent, merges the child over it, and goes on with the merged
document until it names no parent.

- `mergeParent`: one turn of the loop, on the document merged so far and its parent.
- `chainLoop`: the loop, with a bound on its turns; `Resolves`: it ends with this result for every large enough bound.
- `Flat`: the result as one pass over all documents of the chain, child first; `Merged` is what a partial merge keeps of
  it.
- `resolve_version_chain_flat`: merging pair by pair is the flat pass; a repeated or missing parent is `INHERITS_BREAK`;
  over finitely many ids the loop ends.
-/
import EspectralClient.Lib.KeepFirst
import EspectralClient.Engine.Json

namespace EspectralClient.VersionChain

open EspectralClient.Lib

/-! ## Model -/

inductive EngineError where
  | api (status : ℕ) (code message : String)
  | other (message : String)
deriving DecidableEq, Repr

def inheritsBreak (message : String) : EngineError := .api 502 "INHERITS_BREAK" message

/-- `lib.get("name").and_then(Value::as_str)` -/
def libName (lib : Json) : Option String := (lib.get? "name").bind Json.asStr

/-- earlier lists win; an entry without a name is dropped -/
def dedupeByName (lists : List (List Json)) : List Json :=
  (lists.foldl (fun st list => list.foldl (fun (seen, out) lib =>
    match libName lib with
    | some name => if name ∈ seen then (seen, out) else (name :: seen, out ++ [lib])
    | none => (seen, out)) st) (([] : List String), ([] : List Json))).2

def isFlag (s : String) : Bool := s.toList.head? = some '-'

section Text

-- `Value::to_string`, the compact JSON text of a value
variable (text : Json → String)

/-- the body of the loop of `merge_args`, on the two sets and the output -/
def pushArg (st : List String × List String × List Json) (entry : Json) : List String × List String × List Json :=
  let (strings, objects, out) := st
  match entry with
  | .str s => if isFlag s ∨ s ∉ strings then (s :: strings, objects, out ++ [entry]) else st
  | other => if text other ∈ objects then st else (strings, text other :: objects, out ++ [other])

def mergeArgs (child parent : Option (List Json)) : List Json :=
  ([child, parent].foldl (fun st list => (list.getD []).foldl (pushArg text) st) ([], [], [])).2.2

def arr (v : Json) (key : String) : List Json := ((v.get? key).bind Json.asArray).getD []

def argsOf (v : Json) (kind : String) : Option (List Json) :=
  ((v.get? "arguments").bind (·.get? kind)).bind Json.asArray

def parentId (v : Json) : Option String :=
  match v.get? "inheritsFrom" with
  | none | some .null => none
  | some (.str s) => if s = "" then none else some s
  | some (.bool false) => none
  | some other => some (text other)

def set (out : IndexMap String Json) (key : String) (v : Option Json) : IndexMap String Json :=
  match v with
  | some v => out.insert key v
  | none => out.swapRemove key

def pick (merged parent : Json) (key : String) : Option Json :=
  match merged.get? key with
  | some v => if v.isNull then parent.get? key else some v
  | none => parent.get? key

def pickedKeys : List String :=
  ["mainClass", "assetIndex", "javaVersion", "downloads", "minecraftArguments", "logging"]

def mergeParent (merged parent : Json) : Json :=
  let out := parent.asObject.getD .empty
  let out := set out "id" (merged.get? "id")
  let out := pickedKeys.foldl (fun out key => set out key (pick merged parent key)) out
  let out := out.insert "libraries" (.arr (dedupeByName [arr merged "libraries", arr parent "libraries"]))
  let out := out.insert "arguments" (.obj
    [("game", .arr (mergeArgs text (argsOf merged "game") (argsOf parent "game"))),
      ("jvm", .arr (mergeArgs text (argsOf merged "jvm") (argsOf parent "jvm")))])
  .obj out.entries

/-- The parent getter. The loop asks for no id twice, so an answer may depend on the id alone. -/
abbrev Getter := String → Except EngineError (Option Json)

variable (getParent : Getter)

/-- `None`: still not done after so many turns -/
def chainLoop : ℕ → Json → List String → Option (Except EngineError Json)
  | 0, _, _ => none
  | turns + 1, merged, seen =>
    match parentId text merged with
    | none => some (.ok merged)
    | some pid =>
      if pid ∈ seen then some (.error (inheritsBreak ("inheritance cycle at " ++ pid)))
      else
        match getParent pid with
        | .error e => some (.error e)
        | .ok none =>
          let child := ((merged.get? "id").bind Json.asStr).getD "undefined"
          some (.error (inheritsBreak ("parent version " ++ pid ++ " not found for " ++ child)))
        | .ok (some parent) => chainLoop turns (mergeParent text merged parent) (pid :: seen)

/-- `resolve_version_chain_with` ends, with this result -/
def Resolves (json : Json) (out : Except EngineError Json) : Prop :=
  ∃ turns, ∀ more, turns ≤ more → chainLoop text getParent more json [] = some out

end Text

/-! ## The two filters are one pass -/

/-- libraries are kept by name -/
def nameRule (lib : Json) : Rule String :=
  match libName lib with
  | some name => .once name
  | none => .never

theorem dedupeByName_eq (lists : List (List Json)) : dedupeByName lists = keepFirst nameRule [] lists.flatten := by
  have hbody : ∀ (st : List String × List Json) (lib : Json), (match libName lib with
      | some name => if name ∈ st.1 then (st.1, st.2) else (name :: st.1, st.2 ++ [lib])
      | none => (st.1, st.2)) = pushFirst nameRule st lib := by
    intro st lib
    unfold pushFirst nameRule
    cases libName lib <;> rfl
  simp only [dedupeByName, hbody]
  rw [← List.foldl_flatten, foldl_pushFirst]
  rfl

/-- Arguments are kept by value, with flags always kept. A key is a string, or the text of another value. -/
def argRule (text : Json → String) (entry : Json) : Rule (String ⊕ String) :=
  match entry with
  | .str s => if isFlag s then .always else .once (.inl s)
  | other => .once (.inr (text other))

/-- what the two sets of `merge_args` say of the keys seen; the flags in the first are never looked up -/
def SameKeys (strings objects : List String) (seen : List (String ⊕ String)) : Prop :=
  (∀ s, isFlag s = false → (s ∈ strings ↔ .inl s ∈ seen)) ∧ ∀ o, o ∈ objects ↔ .inr o ∈ seen

theorem foldl_pushArg (text : Json → String) (l : List Json) {strings objects : List String}
    {seen : List (String ⊕ String)} (out : List Json) (h : SameKeys strings objects seen) :
    (l.foldl (pushArg text) (strings, objects, out)).2.2 = out ++ keepFirst (argRule text) seen l := by
  induction l generalizing strings objects seen out with
  | nil => simp
  | cons entry l ih =>
    have other : ∀ (t : String), (if t ∈ objects then (strings, objects, out)
        else (strings, t :: objects, out ++ [entry])) = pushArg text (strings, objects, out) entry →
        argRule text entry = .once (.inr t) →
        (List.foldl (pushArg text) (strings, objects, out) (entry :: l)).2.2 =
          out ++ keepFirst (argRule text) seen (entry :: l) := by
      intro t hpush hrule
      rw [List.foldl_cons, ← hpush]
      simp only [keepFirst, hrule, ← h.2]
      split_ifs with ht
      · exact ih out h
      · have hstill : SameKeys strings (t :: objects) (.inr t :: seen) := ⟨by simpa using h.1, by simp [h.2]⟩
        rw [ih _ hstill]
        simp
    cases entry with
    | str s =>
      rw [List.foldl_cons]
      simp only [pushArg, keepFirst, argRule]
      by_cases hf : isFlag s
      · simp only [hf, true_or, if_true]
        have hstill : SameKeys (s :: strings) objects seen := by
          refine ⟨?_, h.2⟩
          intro s' hs'
          rw [List.mem_cons, ← h.1 s' hs']
          refine or_iff_right ?_
          rintro rfl
          rw [hf] at hs'
          cases hs'
        rw [ih _ hstill]
        simp
      · have hf' : isFlag s = false := by simpa using hf
        by_cases hs : s ∈ strings
        · have hs' : .inl s ∈ seen := (h.1 s hf').1 hs
          simpa [hf', hs, hs'] using ih out h
        · have hs' : .inl s ∉ seen := fun hin => hs ((h.1 s hf').2 hin)
          have hmore : SameKeys (s :: strings) objects (.inl s :: seen) := by
            refine ⟨?_, by simpa using h.2⟩
            intro s' hs'
            simp [h.1 s' hs']
          have hrest := ih (out ++ [.str s]) hmore
          rw [List.append_assoc] at hrest
          simpa [hf', hs, hs'] using hrest
    | null => exact other _ rfl rfl
    | bool b => exact other _ rfl rfl
    | int n => exact other _ rfl rfl
    | double bits => exact other _ rfl rfl
    | arr items => exact other _ rfl rfl
    | obj fields => exact other _ rfl rfl

theorem mergeArgs_eq (text : Json → String) (child parent : Option (List Json)) :
    mergeArgs text child parent = keepFirst (argRule text) [] (child.getD [] ++ parent.getD []) := by
  have hfold : [child, parent].foldl (fun st list => (list.getD []).foldl (pushArg text) st) ([], [], []) =
      (child.getD [] ++ parent.getD []).foldl (pushArg text) ([], [], []) := by
    rw [List.foldl_append]
    rfl
  rw [mergeArgs, hfold]
  exact foldl_pushArg text _ [] ⟨by simp, by simp⟩

/-! ## One turn, read back -/

theorem get?_set (out : IndexMap String Json) (key key' : String) (v : Option Json) :
    (set out key v).get? key' = if key = key' then v else out.get? key' := by
  cases v with
  | some v => exact IndexMap.get?_insert ..
  | none => exact IndexMap.get?_swapRemove ..

theorem get?_foldl_set (keys : List String) (f : String → Option Json) (out : IndexMap String Json) (key : String) :
    (keys.foldl (fun out key => set out key (f key)) out).get? key = if key ∈ keys then f key else out.get? key := by
  induction keys generalizing out with
  | nil => simp
  | cons k keys ih =>
    rw [List.foldl_cons, ih, get?_set]
    by_cases hk : k = key
    · subst hk; simp
    · simp [hk, Ne.symm hk]

section Turn

variable (text : Json → String) (merged parent : Json)

theorem get?_mergeParent (key : String) :
    (mergeParent text merged parent).get? key =
      if "arguments" = key then some (.obj
        [("game", .arr (mergeArgs text (argsOf merged "game") (argsOf parent "game"))),
          ("jvm", .arr (mergeArgs text (argsOf merged "jvm") (argsOf parent "jvm")))])
      else if "libraries" = key then
        some (.arr (dedupeByName [VersionChain.arr merged "libraries", VersionChain.arr parent "libraries"]))
      else if key ∈ pickedKeys then pick merged parent key
      else if "id" = key then merged.get? "id"
      else parent.get? key := by
  simp only [mergeParent, Json.get?_obj, IndexMap.get?_insert, get?_foldl_set, get?_set, Json.get?_getD_asObject]

theorem argsOf_mergeParent {kind : String} (hkind : kind = "game" ∨ kind = "jvm") :
    argsOf (mergeParent text merged parent) kind =
      some (keepFirst (argRule text) [] ((argsOf merged kind).getD [] ++ (argsOf parent kind).getD [])) := by
  rw [argsOf, get?_mergeParent, ← mergeArgs_eq]
  rcases hkind with rfl | rfl <;> simp [Json.get?, Json.asObject, Json.asArray]

end Turn

/-! ## The flat merge -/

/-- the keys the merge sets; any other key is the last parent's -/
def mergedKeys : List String := "id" :: "libraries" :: "arguments" :: pickedKeys

def nonNull : Option Json → Option Json
  | some .null => none
  | v => v

theorem nonNull_pick (merged parent : Json) (key : String) :
    nonNull (pick merged parent key) = (nonNull (merged.get? key)).or (nonNull (parent.get? key)) := by
  unfold pick
  cases h : merged.get? key with
  | none => rfl
  | some v => cases v <;> rfl

/-- one pass over the documents of a chain, child first -/
structure Flat (text : Json → String) (docs : List Json) (r : Json) : Prop where
  id : r.get? "id" = docs.head?.bind (·.get? "id")
  /-- the first value that is not null; without one the key is absent or null -/
  picked : ∀ key ∈ pickedKeys, nonNull (r.get? key) = docs.findSome? fun d => nonNull (d.get? key)
  libraries : r.get? "libraries" = some (.arr (keepFirst nameRule [] (docs.flatMap (arr · "libraries"))))
  arguments : ∀ kind, kind = "game" ∨ kind = "jvm" →
    argsOf r kind = some (keepFirst (argRule text) [] (docs.flatMap fun d => (argsOf d kind).getD []))
  other : ∀ key, key ∉ mergedKeys → r.get? key = docs.getLast?.bind (·.get? key)

/-- what a partial merge keeps of the documents merged so far: filtered or not, its lists pass on like theirs -/
structure Merged (text : Json → String) (docs : List Json) (m : Json) : Prop where
  id : m.get? "id" = docs.head?.bind (·.get? "id")
  picked : ∀ key ∈ pickedKeys, nonNull (m.get? key) = docs.findSome? fun d => nonNull (d.get? key)
  libraries : ∀ more, keepFirst nameRule [] (arr m "libraries" ++ more) =
    keepFirst nameRule [] (docs.flatMap (arr · "libraries") ++ more)
  arguments : ∀ kind, kind = "game" ∨ kind = "jvm" → ∀ more,
    keepFirst (argRule text) [] ((argsOf m kind).getD [] ++ more) =
      keepFirst (argRule text) [] (docs.flatMap (fun d => (argsOf d kind).getD []) ++ more)
  other : ∀ key, key ∉ mergedKeys → m.get? key = docs.getLast?.bind (·.get? key)

theorem merged_single (text : Json → String) (j : Json) : Merged text [j] j := by
  constructor <;> simp

theorem Flat.merged {text : Json → String} {docs : List Json} {r : Json} (h : Flat text docs r) :
    Merged text docs r := by
  refine ⟨h.id, h.picked, ?_, ?_, h.other⟩
  · intro more
    have hlist : arr r "libraries" = keepFirst nameRule [] (docs.flatMap (arr · "libraries")) := by
      rw [arr, h.libraries]
      rfl
    rw [hlist, keepFirst_absorb]
  · intro kind hkind more
    rw [h.arguments kind hkind, Option.getD_some, keepFirst_absorb]

/-- **One turn.** Merging the next parent into a partial merge is the flat pass over one document more. -/
theorem Merged.step {text : Json → String} {docs : List Json} {m : Json} (h : Merged text docs m) (hne : docs ≠ [])
    (parent : Json) : Flat text (docs ++ [parent]) (mergeParent text m parent) := by
  obtain ⟨j, rest, rfl⟩ := List.exists_cons_of_ne_nil hne
  constructor
  · rw [get?_mergeParent]
    simpa [pickedKeys] using h.id
  · intro key hkey
    have hne' : "arguments" ≠ key ∧ "libraries" ≠ key := by
      constructor <;> rintro rfl <;> simp [pickedKeys] at hkey
    rw [get?_mergeParent, if_neg hne'.1, if_neg hne'.2, if_pos hkey, nonNull_pick, h.picked key hkey,
      List.findSome?_append]
    simp
  · rw [get?_mergeParent, if_neg (by decide), if_pos rfl, dedupeByName_eq]
    simp only [List.flatten_cons, List.flatten_nil, List.append_nil, List.flatMap_append, List.flatMap_singleton,
      h.libraries]
  · intro kind hkind
    rw [argsOf_mergeParent text m parent hkind, h.arguments kind hkind]
    simp
  · intro key hkey
    simp only [mergedKeys, List.mem_cons, not_or] at hkey
    rw [get?_mergeParent, if_neg (Ne.symm hkey.2.2.1), if_neg (Ne.symm hkey.2.1), if_neg hkey.2.2.2,
      if_neg (Ne.symm hkey.1), List.getLast?_concat]
    rfl

/-! ## The loop -/

/-- the parents the `inheritsFrom` fields lead to from `j`, each with its id -/
def Links (text : Json → String) (getParent : Getter) : Json → List (String × Json) → Prop
  | _, [] => True
  | j, (pid, parent) :: rest =>
    parentId text j = some pid ∧ getParent pid = .ok (some parent) ∧ Links text getParent parent rest

/-- the last document of a chain -/
def lastDoc (j : Json) (parents : List (String × Json)) : Json := (parents.getLast?.map Prod.snd).getD j

section Loop

variable (text : Json → String) (getParent : Getter)

theorem parentId_congr {v w : Json} (h : v.get? "inheritsFrom" = w.get? "inheritsFrom") :
    parentId text v = parentId text w := by
  simp only [parentId, h]

/-- the merged document inherits from what its last parent inherits from -/
theorem parentId_mergeParent (merged parent : Json) :
    parentId text (mergeParent text merged parent) = parentId text parent := by
  apply parentId_congr
  rw [get?_mergeParent]
  simp [pickedKeys]

theorem lastDoc_cons (j parent : Json) (pid : String) (rest : List (String × Json)) :
    lastDoc j ((pid, parent) :: rest) = lastDoc parent rest := by
  cases rest with
  | nil => rfl
  | cons q rest => simp [lastDoc, List.getLast?_eq_some_getLast]

/-- The loop over a chain. It comes to the merge of the whole chain, with the ids of the chain seen. -/
theorem chainLoop_links {j m : Json} {parents : List (String × Json)} {docs : List Json} {seen : List String}
    (hlinks : Links text getParent j parents) (hnodup : (parents.map Prod.fst).Nodup)
    (hseen : ∀ pid ∈ parents.map Prod.fst, pid ∉ seen) (hm : Merged text docs m) (hne : docs ≠ [])
    (hid : parentId text m = parentId text j) :
    ∃ r, Merged text (docs ++ parents.map Prod.snd) r ∧
      (Flat text docs m ∨ parents ≠ [] → Flat text (docs ++ parents.map Prod.snd) r) ∧
      parentId text r = parentId text (lastDoc j parents) ∧
      ∀ turns, chainLoop text getParent (parents.length + turns) m seen =
        chainLoop text getParent turns r ((parents.map Prod.fst).reverse ++ seen) := by
  induction parents generalizing j m docs seen with
  | nil => exact ⟨m, by simpa using hm, by simp, hid, by simp⟩
  | cons p rest ih =>
    obtain ⟨pid, parent⟩ := p
    obtain ⟨hpid, hget, hrest⟩ := hlinks
    obtain ⟨hnotin, hnodup⟩ := List.nodup_cons.1 hnodup
    have hflat : Flat text (docs ++ [parent]) (mergeParent text m parent) := hm.step hne parent
    have hseen' : ∀ q ∈ rest.map Prod.fst, q ∉ pid :: seen := by
      intro q hq hin
      rcases List.mem_cons.1 hin with rfl | hin
      · exact hnotin hq
      · exact hseen q (List.mem_cons_of_mem _ hq) hin
    obtain ⟨r, hr, hrf, hrid, hrun⟩ := ih hrest hnodup hseen' hflat.merged (by simp) (parentId_mergeParent text m parent)
    have hdocs : docs ++ ((pid, parent) :: rest).map Prod.snd = docs ++ [parent] ++ rest.map Prod.snd := by simp
    refine ⟨r, hdocs ▸ hr, ?_, ?_, ?_⟩
    · intro _
      rw [hdocs]
      exact hrf (.inl hflat)
    · rw [hrid, lastDoc_cons]
    · intro turns
      have hturn : ((pid, parent) :: rest).length + turns = (rest.length + turns) + 1 := by
        simp only [List.length_cons]
        omega
      rw [hturn, chainLoop, hid, hpid]
      simp only [hseen pid List.mem_cons_self, if_false, hget, hrun turns]
      simp

/-- a result does not change with more turns -/
theorem chainLoop_mono {turns : ℕ} {m : Json} {seen : List String} {out : Except EngineError Json}
    (h : chainLoop text getParent turns m seen = some out) (more : ℕ) :
    chainLoop text getParent (turns + more) m seen = some out := by
  induction turns generalizing m seen with
  | zero => cases h
  | succ turns ih =>
    rw [Nat.add_right_comm]
    simp only [chainLoop] at h ⊢
    cases hp : parentId text m with
    | none => simpa [hp] using h
    | some pid =>
      simp only [hp] at h ⊢
      split_ifs at h ⊢
      · exact h
      · cases hg : getParent pid with
        | error e => simpa [hg] using h
        | ok parent =>
          cases parent with
          | none => simpa [hg] using h
          | some parent =>
            simp only [hg] at h ⊢
            exact ih h

theorem resolves_of_turns {turns : ℕ} {j : Json} {out : Except EngineError Json}
    (h : chainLoop text getParent turns j [] = some out) : Resolves text getParent j out := by
  refine ⟨turns, ?_⟩
  intro more hmore
  obtain ⟨k, rfl⟩ := Nat.exists_eq_add_of_le hmore
  exact chainLoop_mono text getParent h k

/-- a getter that knows finitely many ids is asked for each at most once -/
theorem chainLoop_isSome {ids : List String} (hids : ∀ pid parent, getParent pid = .ok (some parent) → pid ∈ ids)
    {turns : ℕ} {m : Json} {seen : List String} (hturns : (ids.toFinset \ seen.toFinset).card < turns) :
    (chainLoop text getParent turns m seen).isSome := by
  induction turns generalizing m seen with
  | zero => cases hturns
  | succ turns ih =>
    simp only [chainLoop]
    cases parentId text m with
    | none => rfl
    | some pid =>
      dsimp only
      split_ifs with hseen
      · rfl
      · cases hg : getParent pid with
        | error e => rfl
        | ok parent =>
          cases parent with
          | none => rfl
          | some parent =>
            apply ih
            have hmem : pid ∈ ids.toFinset \ seen.toFinset := by simp [hids pid parent hg, hseen]
            have hsub : ids.toFinset \ (pid :: seen).toFinset ⊂ ids.toFinset \ seen.toFinset := by
              rw [Finset.ssubset_iff_of_subset]
              · exact ⟨pid, hmem, by simp⟩
              · intro q hq
                simp only [List.toFinset_cons, Finset.mem_sdiff, Finset.mem_insert, not_or] at hq ⊢
                exact ⟨hq.1, hq.2.2⟩
            have hlt := Finset.card_lt_card hsub
            omega

/-! ## Main result -/

/-- the rule for arguments with the values themselves as keys -/
def valueRule (entry : Json) : Rule Json :=
  match entry with
  | .str s => if isFlag s then .always else .once (.str s)
  | other => .once other

/-- the texts tell the argument entries of the documents apart -/
def TextsDistinct (docs : List Json) (kind : String) : Prop :=
  ∀ v ∈ docs.flatMap (fun d => (argsOf d kind).getD []), ∀ w ∈ docs.flatMap (fun d => (argsOf d kind).getD []),
    text v = text w → v = w

theorem valueRule_key {entry k : Json} (h : (valueRule entry).key? = some k) : k = entry := by
  cases entry with
  | str s =>
    simp only [valueRule] at h
    split_ifs at h with hf
    · cases h
    · exact (Option.some.inj h).symm
  | _ => exact (Option.some.inj h).symm

open Classical in
theorem keepFirst_valueRule (l : List Json) (htext : ∀ v ∈ l, ∀ w ∈ l, text v = text w → v = w) :
    keepFirst (argRule text) [] l = keepFirst valueRule [] l := by
  let key : Json → String ⊕ String := fun v => match v with
    | .str s => .inl s
    | other => .inr (text other)
  have hrule : argRule text = fun entry => (valueRule entry).map key := by
    funext entry
    cases entry with
    | str s =>
      simp only [argRule, valueRule]
      split_ifs <;> rfl
    | _ => rfl
  have hmem : ∀ k ∈ keysOf valueRule l ++ [], k ∈ l := by
    intro k hk
    rw [List.append_nil, keysOf, List.mem_filterMap] at hk
    obtain ⟨entry, hentry, hk⟩ := hk
    rwa [valueRule_key hk]
  rw [hrule]
  refine keepFirst_map valueRule key [] l ?_
  intro k hk k' hk' heq
  cases k <;> cases k' <;>
    first
      | exact congrArg Json.str (Sum.inl.inj heq)
      | cases heq; done
      | exact htext _ (hmem _ hk) _ (hmem _ hk') (Sum.inr.inj heq)

open Classical in
/-- **Version inheritance is a flat merge.** A chain that ends, with no id twice and at least one parent, resolves to one
pass over its documents, child first; where the texts tell its arguments apart they are kept by value. A chain that comes
back to an id, or to a parent that does not exist, is an `INHERITS_BREAK`. With a getter that knows finitely many ids
every document resolves to something. -/
theorem resolve_version_chain_flat :
    (∀ j₀ parents, Links text getParent j₀ parents → (parents.map Prod.fst).Nodup → parents ≠ [] →
      parentId text (lastDoc j₀ parents) = none →
      ∃ r, Resolves text getParent j₀ (.ok r) ∧ Flat text (j₀ :: parents.map Prod.snd) r ∧
        ∀ kind, kind = "game" ∨ kind = "jvm" → TextsDistinct text (j₀ :: parents.map Prod.snd) kind →
          argsOf r kind =
            some (keepFirst valueRule [] ((j₀ :: parents.map Prod.snd).flatMap fun d => (argsOf d kind).getD []))) ∧
    (∀ j₀ parents pid, Links text getParent j₀ parents → (parents.map Prod.fst).Nodup →
      parentId text (lastDoc j₀ parents) = some pid →
      (pid ∈ parents.map Prod.fst →
        Resolves text getParent j₀ (.error (.api 502 "INHERITS_BREAK" ("inheritance cycle at " ++ pid)))) ∧
      (pid ∉ parents.map Prod.fst → getParent pid = .ok none →
        Resolves text getParent j₀ (.error (.api 502 "INHERITS_BREAK"
          ("parent version " ++ pid ++ " not found for " ++
            ((j₀.get? "id").bind Json.asStr).getD "undefined"))))) ∧
    (∀ ids : List String, (∀ pid parent, getParent pid = .ok (some parent) → pid ∈ ids) →
      ∀ j₀, ∃ out, Resolves text getParent j₀ out) := by
  refine ⟨?_, ?_, ?_⟩
  · intro j₀ parents hlinks hnodup hne hend
    obtain ⟨r, -, hflat, hrid, hrun⟩ := chainLoop_links text getParent hlinks hnodup
      (fun pid _ => List.not_mem_nil) (merged_single text j₀) (by simp) rfl
    have hr : Flat text (j₀ :: parents.map Prod.snd) r := hflat (.inr hne)
    have hdone : chainLoop text getParent (parents.length + 1) j₀ [] = some (.ok r) := by
      rw [hrun, chainLoop, hrid, hend]
    refine ⟨r, resolves_of_turns text getParent hdone, hr, ?_⟩
    intro kind hkind htext
    rw [hr.arguments kind hkind, keepFirst_valueRule text _ htext]
  · intro j₀ parents pid hlinks hnodup hend
    obtain ⟨r, hm, -, hrid, hrun⟩ := chainLoop_links text getParent hlinks hnodup
      (fun pid _ => List.not_mem_nil) (merged_single text j₀) (by simp) rfl
    have hturn := hrun 1
    rw [chainLoop.eq_2 text getParent r, hrid, hend] at hturn
    refine ⟨?_, ?_⟩
    · intro hin
      have hseen : pid ∈ (parents.map Prod.fst).reverse ++ [] := by simpa using hin
      simp only [if_pos hseen] at hturn
      exact resolves_of_turns text getParent hturn
    · intro hnew hnone
      have hseen : pid ∉ (parents.map Prod.fst).reverse ++ [] := by simpa using hnew
      have hid : r.get? "id" = j₀.get? "id" := by simpa using hm.id
      simp only [if_neg hseen, hnone, hid] at hturn
      exact resolves_of_turns text getParent hturn
  · intro ids hids j₀
    have hsome := chainLoop_isSome text getParent hids (m := j₀) (Nat.lt_succ_self (ids.toFinset \ [].toFinset).card)
    obtain ⟨out, hout⟩ := Option.isSome_iff_exists.1 hsome
    exact ⟨out, resolves_of_turns text getParent hout⟩

end Loop

/-- a child that repeats a flag over a parent, as a mod loader's profile does -/
theorem resolve_version_chain_flat_profile :
    let text : Json → String := fun v => match v with
      | .str s => "\"" ++ s ++ "\""
      | _ => "null"
    let child := Json.obj [("id", .str "c"), ("inheritsFrom", .str "p"), ("mainClass", .null),
      ("arguments", .obj [("jvm", .arr [.str "--add-opens", .str "a", .str "--add-opens", .str "b"])])]
    let parent := Json.obj [("id", .str "p"), ("mainClass", .str "M"),
      ("arguments", .obj [("jvm", .arr [.str "a", .str "--add-opens"])])]
    ∃ r, Resolves text (fun pid => .ok (if pid = "p" then some parent else none)) child (.ok r) ∧
      r.get? "id" = some (.str "c") ∧ nonNull (r.get? "mainClass") = some (.str "M") ∧
      argsOf r "jvm" = some [.str "--add-opens", .str "a", .str "--add-opens", .str "b", .str "--add-opens"] := by
  intro text child parent
  obtain ⟨r, hr, hflat, -⟩ := (resolve_version_chain_flat text
    (fun pid => .ok (if pid = "p" then some parent else none))).1 child [("p", parent)] ⟨rfl, rfl, trivial⟩ (by simp)
    (by simp) rfl
  refine ⟨r, hr, hflat.id.trans rfl, (hflat.picked "mainClass" (by decide)).trans rfl, ?_⟩
  exact (hflat.arguments "jvm" (.inr rfl)).trans rfl

end EspectralClient.VersionChain
