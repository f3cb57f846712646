/-
The placeholders of launch arguments (`native/engine/src/launch.rs`, `substitute_placeholders`), on byte offsets as the
source has them.

- `token`, `substituteLoop`, `substitutePlaceholders`: one turn of the scanner, its loop and the whole.
- `placeholder`: the expression the scanner stands for.
- `token_spec`: one turn, with the text before it: a match replaced, or two characters where no match begins.
- `substitute_regex`: the scanner ends, cuts between characters, and replaces the matches of the expression.
- `substitute_eq`: it is the replacement that the launch is modelled with.
-/
import EspectralClient.Lib.Regex
import EspectralClient.Lib.StrSlice
import EspectralClient.Engine.BuildArgv

namespace EspectralClient.Placeholders

open Lib Lib.Checked Lib.StrSlice Lib.Bytes
open BuildArgv (isKeyChar)

/-! ## Model -/

section Model

variable (text : Json → String) (map : IndexMap String Json)

/-- a value as it is inserted; `text` displays one that is no string -/
def shownValue : Json → String
  | .str s => s
  | other => text other

/-- an unknown key is nothing -/
def valueOf (key : List Char) : List Char :=
  (((map.get? (.ofList key)).map (shownValue text)).getD "").toList

def isOpening (cs : List Char) : Bool := ['$', '\x7b'].isPrefixOf cs

def isBrace (cs : List Char) : Bool := cs.head?.any fun c => !isKeyChar c

/-- a brace that breaks the token, or none at all -/
def broken (rest : List Char) (start : ℕ) (after : List Char) : Except (Stop Empty) (List Char × List Char) :=
  (sliceTo rest (start + 2)).map fun head => (head, after)

/-- one turn: what it pushes, and the rest -/
def token (rest : List Char) (start : ℕ) : Except (Stop Empty) (List Char × List Char) :=
  (sliceFrom rest (start + 2)).bind fun after =>
    match find isBrace after with
    | some e =>
      (index (utf8Chars after) e).bind fun b =>
        if b = 0x7d then
          (sliceTo rest start).bind fun front =>
            (sliceTo after e).bind fun key =>
              (sliceFrom after (e + 1)).map fun rest => (front ++ valueOf text map key, rest)
        else broken rest start after
    | none => broken rest start after

def substituteLoop : ℕ → List Char → List Char → Except (Stop Empty) (List Char)
  | 0, _, _ => .error .endless
  | turns + 1, out, rest =>
    match find isOpening rest with
    | none => .ok (out ++ rest)
    | some start => (token text map rest start).bind fun pushed => substituteLoop turns (out ++ pushed.1) pushed.2

/-- each turn takes a character, and one finds none left -/
def substitutePlaceholders (arg : String) : Except (Stop Empty) String :=
  (substituteLoop text map (arg.toList.length + 1) [] arg.toList).map String.ofList

end Model

/-! ## The expression -/

/-- `'${' [^{}]* '}'` -/
def placeholder : Regex Char :=
  .seq (.one (· = '$')) (.seq (.one (· = '\x7b')) (.seq (.star (.one isKeyChar)) (.one (· = '\x7d'))))

/-- the value of a match, by what is between its braces -/
def replacement (text : Json → String) (map : IndexMap String Json) (m : List Char) : List Char :=
  valueOf text map (m.drop 2).dropLast

theorem matches_placeholder {m : List Char} : placeholder.Matches m ↔
    ∃ key, m = '$' :: '\x7b' :: (key ++ ['\x7d']) ∧ ∀ c ∈ key, isKeyChar c = true := by
  unfold placeholder
  constructor
  · intro h
    obtain ⟨a, m1, rfl, ha, h1⟩ := Regex.matches_seq.1 h
    obtain ⟨b, m2, rfl, hb, h2⟩ := Regex.matches_seq.1 h1
    obtain ⟨key, d, rfl, hkey, hd⟩ := Regex.matches_seq.1 h2
    obtain ⟨x, rfl, hx⟩ := Regex.matches_one.1 ha
    obtain ⟨y, rfl, hy⟩ := Regex.matches_one.1 hb
    obtain ⟨z, rfl, hz⟩ := Regex.matches_one.1 hd
    rw [decide_eq_true_eq] at hx hy hz
    subst hx hy hz
    exact ⟨key, rfl, Regex.matches_star_one.1 hkey⟩
  · rintro ⟨key, rfl, hkey⟩
    exact .seq (m := ['$']) (.one (by decide)) (.seq (m := ['\x7b']) (.one (by decide))
      (.seq (Regex.matches_star_one.2 hkey) (.one (by decide))))

theorem replacement_match (text : Json → String) (map : IndexMap String Json) (key : List Char) :
    replacement text map ('$' :: '\x7b' :: (key ++ ['\x7d'])) = valueOf text map key := by
  simp [replacement]

/-- a key ends at its brace -/
theorem key_unique {key key' post post' : List Char} (hkey : ∀ c ∈ key, isKeyChar c = true)
    (hkey' : ∀ c ∈ key', isKeyChar c = true) {c c' : Char} (hc : isKeyChar c = false) (hc' : isKeyChar c' = false)
    (h : key ++ c :: post = key' ++ c' :: post') : key = key' ∧ c = c' := by
  induction key generalizing key' with
  | nil =>
    cases key' with
    | nil => exact ⟨rfl, (List.cons.inj h).1⟩
    | cons d key' =>
      have hd := hkey' d List.mem_cons_self
      rw [← (List.cons.inj h).1, hc] at hd
      cases hd
  | cons d key ih =>
    cases key' with
    | nil =>
      have hd := hkey d List.mem_cons_self
      rw [(List.cons.inj h).1, hc'] at hd
      cases hd
    | cons d' key' =>
      obtain ⟨rfl, hrest⟩ := List.cons.inj h
      obtain ⟨rfl, hbrace⟩ := ih (fun c hc => hkey c (List.mem_cons_of_mem d hc))
        (fun c hc => hkey' c (List.mem_cons_of_mem d hc)) hrest
      exact ⟨rfl, hbrace⟩

theorem placeholder_prefixFree : placeholder.PrefixFree := by
  intro m m' hm hm' hprefix
  obtain ⟨key, rfl, hkey⟩ := matches_placeholder.1 hm
  obtain ⟨key', rfl, hkey'⟩ := matches_placeholder.1 hm'
  obtain ⟨post, hpost⟩ := hprefix
  simp only [List.cons_append, List.cons.injEq, true_and, List.append_assoc, List.nil_append] at hpost
  obtain ⟨rfl, -⟩ := key_unique hkey hkey' (by decide) (by decide) hpost
  rfl

theorem placeholder_ne_nil : ∀ m, placeholder.Matches m → m ≠ [] := by
  intro m hm
  obtain ⟨key, rfl, -⟩ := matches_placeholder.1 hm
  exact List.cons_ne_nil _ _

/-- a match begins with the two characters that open it -/
theorem opening_of_match {m : List Char} (hm : placeholder.Matches m) (post : List Char) : isOpening (m ++ post) = true := by
  obtain ⟨key, rfl, -⟩ := matches_placeholder.1 hm
  rfl

theorem opening_iff {cs : List Char} (h : isOpening cs = true) : ∃ after, cs = '$' :: '\x7b' :: after := by
  obtain ⟨after, rfl⟩ := List.isPrefixOf_iff_prefix.1 h
  exact ⟨after, rfl⟩

/-! ## One turn -/

section Turn

variable (text : Json → String) (map : IndexMap String Json)

/-- no match begins before the first opening -/
theorem no_match_before {front back : List Char} (hfirst : ∀ front' back', front = front' ++ back' → back' ≠ [] →
    isOpening (back' ++ back) = false) :
    ∀ front' back', front = front' ++ back' → back' ≠ [] → ∀ m post, back' ++ back = m ++ post →
      ¬ placeholder.Matches m := by
  intro front' back' heq hne m post hm hmatch
  have hopen := opening_of_match hmatch post
  rw [← hm, hfirst front' back' heq hne] at hopen
  cases hopen

/-- no match begins in an opening whose token is broken -/
theorem no_match_in {after : List Char} (hbroken : ∀ key post, after = key ++ '\x7d' :: post →
    ¬ ∀ c ∈ key, isKeyChar c = true) :
    ∀ front' back', ['$', '\x7b'] = front' ++ back' → back' ≠ [] → ∀ m post, back' ++ after = m ++ post →
      ¬ placeholder.Matches m := by
  intro front' back' heq hne m post hm hmatch
  obtain ⟨key, rfl, hkey⟩ := matches_placeholder.1 hmatch
  rcases front' with _ | ⟨a, _ | ⟨b, front'⟩⟩
  · rw [List.nil_append] at heq
    subst heq
    simp only [List.cons_append, List.nil_append, List.cons.injEq, true_and, List.append_assoc] at hm
    exact hbroken key post hm hkey
  · obtain rfl := (List.cons.inj heq).2
    have hdollar := (List.cons.inj hm).1
    exact absurd hdollar (by decide)
  · have hlength := congrArg List.length heq
    simp only [List.length_cons, List.length_append, List.length_nil] at hlength
    have := List.length_pos_iff.2 hne
    omega

/-- **One turn.** It ends, and what is replaced of the rest is replaced of the whole. -/
theorem token_spec {rest : List Char} {start : ℕ} (h : find isOpening rest = some start) :
    ∃ pushed rest', token text map rest start = .ok (pushed, rest') ∧ rest'.length < rest.length ∧
      ∀ out, Replaced placeholder (replacement text map) rest' out →
        Replaced placeholder (replacement text map) rest (pushed ++ out) := by
  obtain ⟨front, back, rfl, rfl, -, hopen, hfirst⟩ := find_some h
  obtain ⟨after, rfl⟩ := opening_iff hopen
  have hbefore := no_match_before hfirst
  have hhead : front ++ '$' :: '\x7b' :: after = (front ++ ['$', '\x7b']) ++ after := by simp
  have hlength : utf8Len front + 2 = utf8Len (front ++ ['$', '\x7b']) := by
    rw [utf8Len_append]
    rfl
  have hafter : sliceFrom (ε := Empty) (front ++ '$' :: '\x7b' :: after) (utf8Len front + 2) = .ok after := by
    rw [hhead, hlength, sliceFrom_append]
  have hbroken : broken (front ++ '$' :: '\x7b' :: after) (utf8Len front) after =
      .ok (front ++ ['$', '\x7b'], after) := by
    rw [broken, hhead, hlength, sliceTo_append]
    rfl
  have hshort : after.length < (front ++ '$' :: '\x7b' :: after).length := by
    simp only [List.length_append, List.length_cons]
    omega
  -- a broken token is passed over with its two characters
  have hpass : (∀ key post, after = key ++ '\x7d' :: post → ¬ ∀ c ∈ key, isKeyChar c = true) →
      ∀ out, Replaced placeholder (replacement text map) after out →
        Replaced placeholder (replacement text map) (front ++ '$' :: '\x7b' :: after)
          (front ++ ['$', '\x7b'] ++ out) := by
    intro hno out hout
    rw [List.append_assoc]
    exact Replaced.skips hbefore (Replaced.skips (no_match_in hno) hout)
  rw [token, hafter, Except.bind]
  cases hbrace : find isBrace after with
  | none =>
    refine ⟨_, _, hbroken, hshort, hpass ?_⟩
    intro key post heq _
    have := find_none hbrace heq (List.cons_ne_nil _ _)
    cases this
  | some e =>
    obtain ⟨key, tail, rfl, rfl, hne, hpassed, hkeyfirst⟩ := find_some hbrace
    obtain ⟨c, tail, rfl⟩ := List.exists_cons_of_ne_nil hne
    have hc : isKeyChar c = false := by simpa [isBrace] using hpassed
    have hkey : ∀ d ∈ key, isKeyChar d = true := by
      intro d hd
      obtain ⟨front', back', rfl⟩ := List.append_of_mem hd
      have := hkeyfirst front' (d :: back') rfl (List.cons_ne_nil _ _)
      simpa [isBrace] using this
    have hascii : c = '\x7b' ∨ c = '\x7d' := by
      simp only [isKeyChar, Bool.and_eq_false_iff, decide_eq_false_iff_not, not_not] at hc
      exact hc
    have hbyte := byte_at (ε := Empty) key (show c.toNat < 0x80 by rcases hascii with rfl | rfl <;> decide) tail
    simp only [hbyte, Except.bind]
    rcases hascii with rfl | rfl
    · rw [if_neg (by decide)]
      refine ⟨_, _, hbroken, hshort, hpass ?_⟩
      intro key' post heq hkey'
      cases (key_unique hkey hkey' hc (by decide) heq).2
    · have hrest : sliceFrom (ε := Empty) (key ++ '\x7d' :: tail) (utf8Len key + 1) = .ok tail := by
        have hsplit : key ++ '\x7d' :: tail = (key ++ ['\x7d']) ++ tail := by simp
        have hend : utf8Len key + 1 = utf8Len (key ++ ['\x7d']) := by
          rw [utf8Len_append]
          rfl
        rw [hsplit, hend, sliceFrom_append]
      rw [if_pos (by decide), sliceTo_append, sliceTo_append, hrest]
      refine ⟨_, _, rfl, ?_, ?_⟩
      · simp only [List.length_append, List.length_cons]
        omega
      · intro out hout
        have hmatch := Replaced.here (f := replacement text map) (matches_placeholder.2 ⟨key, rfl, hkey⟩) hout
        rw [replacement_match] at hmatch
        rw [List.append_assoc]
        have hwhole : '$' :: '\x7b' :: (key ++ '\x7d' :: tail) = '$' :: '\x7b' :: (key ++ ['\x7d']) ++ tail := by simp
        rw [hwhole] at hbefore ⊢
        exact Replaced.skips hbefore hmatch

end Turn

/-! ## The whole -/

theorem loop_spec (text : Json → String) (map : IndexMap String Json) {turns : ℕ} (out : List Char) {rest : List Char}
    (h : rest.length < turns) : ∃ result, substituteLoop text map turns out rest = .ok (out ++ result) ∧
      Replaced placeholder (replacement text map) rest result := by
  induction turns generalizing out rest with
  | zero => cases h
  | succ turns ih =>
    rw [substituteLoop]
    cases hopen : find isOpening rest with
    | none =>
      refine ⟨rest, rfl, Replaced.none ?_⟩
      intro pre m post heq hm
      have hfail := find_none hopen (heq.trans (List.append_assoc pre m post))
        (by simp [placeholder_ne_nil m hm])
      rw [opening_of_match hm post] at hfail
      cases hfail
    | some start =>
      obtain ⟨pushed, rest', htoken, hshort, hreplaced⟩ := token_spec text map hopen
      obtain ⟨result, hloop, hresult⟩ := ih (out ++ pushed) (show rest'.length < turns by omega)
      refine ⟨pushed ++ result, ?_, hreplaced result hresult⟩
      simp only [htoken, Except.bind]
      rw [hloop, List.append_assoc]

/-- **Substitution is the expression's.** The scanner ends, never cuts within a character, and answers the one text in
which each match, from left to right, is replaced by its value. -/
theorem substitute_regex (text : Json → String) (map : IndexMap String Json) (arg : String) :
    ∃ result, substitutePlaceholders text map arg = .ok result ∧
      ∀ out, Replaced placeholder (replacement text map) arg.toList out ↔ out = result.toList := by
  obtain ⟨result, hloop, hresult⟩ := loop_spec text map []
    (Nat.lt_succ_self arg.toList.length)
  refine ⟨.ofList result, ?_, ?_⟩
  · rw [substitutePlaceholders, hloop]
    rfl
  · intro out
    rw [String.toList_ofList]
    constructor
    · exact fun hout => hout.unique placeholder_prefixFree hresult
    · rintro rfl
      exact hresult

/-! ## The launch -/

/-- the launch's own loop, on characters -/
theorem substituteLoop_replaced (text : Json → String) (map : IndexMap String Json) {turns : ℕ} {cs : List Char}
    (h : cs.length ≤ turns) : Replaced placeholder (replacement text map) cs
      (BuildArgv.substituteLoop (fun key => (map.get? key).map (shownValue text)) turns cs) := by
  fun_induction BuildArgv.substituteLoop (fun key => (map.get? key).map (shownValue text)) turns cs with
  | case1 cs =>
    obtain rfl := List.length_eq_zero_iff.1 (Nat.le_zero.1 h)
    exact Replaced.nil placeholder_ne_nil
  | case2 => exact Replaced.nil placeholder_ne_nil
  | case3 turns after rest hdrop ih =>
    have hsplit : after = after.takeWhile isKeyChar ++ '\x7d' :: rest := by
      rw [← hdrop, List.takeWhile_append_dropWhile]
    have hkey : ∀ c ∈ after.takeWhile isKeyChar, isKeyChar c = true := fun c hc => List.mem_takeWhile_imp hc
    have hlength := congrArg List.length hsplit
    simp only [List.length_append, List.length_cons] at h hlength
    have hmatch := Replaced.here (f := replacement text map) (matches_placeholder.2 ⟨_, rfl, hkey⟩) (ih (by omega))
    rw [replacement_match] at hmatch
    convert hmatch using 1
    · simpa using hsplit
    · rfl
  | case4 turns after hno ih =>
    rw [List.length_cons, List.length_cons] at h
    have hbroken : ∀ key post, after = key ++ '\x7d' :: post → ¬ ∀ c ∈ key, isKeyChar c = true := by
      intro key post heq hkey
      apply hno post
      rw [heq, List.dropWhile_append_of_pos hkey, List.dropWhile_cons_of_neg (by decide)]
    exact Replaced.skips (no_match_in hbroken) (ih (by omega))
  | case5 turns c rest hno ih =>
    rw [List.length_cons] at h
    apply Replaced.skip
    · intro m post heq hm
      obtain ⟨after, hopen⟩ := opening_iff (opening_of_match hm post)
      rw [← heq] at hopen
      obtain ⟨rfl, rfl⟩ := List.cons.inj hopen
      exact hno after rfl rfl
    · exact ih (by omega)

/-- **One replacement.** The scanner answers what the launch's arguments are modelled with. -/
theorem substitute_eq (text : Json → String) (map : IndexMap String Json) (arg : String) :
    substitutePlaceholders text map arg =
      .ok (BuildArgv.substitutePlaceholders (fun key => (map.get? key).map (shownValue text)) arg) := by
  obtain ⟨result, hloop, hresult⟩ := loop_spec text map []
    (Nat.lt_succ_self arg.toList.length)
  have hsame : result = _ := hresult.unique placeholder_prefixFree (substituteLoop_replaced text map le_rfl)
  rw [substitutePlaceholders, hloop, BuildArgv.substitutePlaceholders, ← hsame]
  rfl

end EspectralClient.Placeholders
