/-
The launcher's routes (`native/app/src/router.rs`): an address after `#` read as a page, and the address of an instance.

- `parse`, `encodeComponent`, `instanceRoute`, `percentDecode`: as the source has them, on the bytes of a text.
- `decodeLoop_eq`: the loop ends, reads within the buffer, and decodes the pairs that the number parser accepts.
- `decoded`: the decoding of two hexadecimal digits alone.
- `percentDecode_iff`: where the two agree; the number parser also accepts a sign before one digit.
- `routes_round_trip`: an instance's address is read as that instance, and when decoding is as documented.
- `sign_decoded`: `%+A` becomes a line feed.
-/
import EspectralClient.Lib.Checked
import EspectralClient.Lib.PercentCoding
import EspectralClient.Lib.Utf8Text

namespace EspectralClient.Router

open Lib Lib.Bytes Lib.Checked Lib.PercentCoding

/-! ## Model -/

inductive Page where
  | home
  | instance_
  | servers
  | versions
  | import_
  | mods
  | client
  | account
  | settings
  | donations
  | wardrobe
deriving DecidableEq

structure Route where
  page : Page
  /-- the decoded name, empty on other pages -/
  inst : String
  /-- without `?` -/
  query : String
  /-- the address with `#` -/
  raw : String

/-- `u8::from_str_radix(_, 16)` on the bytes of a text -/
def digitsRadix16 : ℕ → List UInt8 → Option UInt8
  | n, [] => some (UInt8.ofNat n)
  | n, b :: rest => (hexValue b).bind fun d => if n * 16 + d < 2 ^ 8 then digitsRadix16 (n * 16 + d) rest else none

/-- a sign alone is no number, and an unsigned number has no minus -/
def fromStrRadix16 : List UInt8 → Option UInt8
  | [] => none
  | b :: rest => if b = 0x2b ∧ rest ≠ [] then digitsRadix16 0 rest else digitsRadix16 0 (b :: rest)

/-- one byte more, and the bytes that are left out -/
def decodeTurn (bytes : List UInt8) (i : ℕ) : Except (Stop Empty) (UInt8 × ℕ) :=
  (index bytes i).bind fun b =>
    if b = percent ∧ i + 2 < bytes.length then
      (slice bytes (i + 1) (i + 3)).map fun pair =>
        match (fromUtf8 pair).bind fun _ => fromStrRadix16 pair with
        | some v => (v, i + 3)
        | none => (b, i + 1)
    else .ok (b, i + 1)

def decodeLoop (bytes : List UInt8) : ℕ → ℕ → List UInt8 → Except (Stop Empty) (List UInt8)
  | 0, _, _ => .error .endless
  | turns + 1, i, out =>
    if i < bytes.length then (decodeTurn bytes i).bind fun next => decodeLoop bytes turns next.2 (out ++ [next.1])
    else .ok out

/-- the text as it is where the bytes are no text; each turn takes a byte, and one finds the end -/
def percentDecode (s : String) : Except (Stop Empty) String :=
  (decodeLoop (utf8 s) ((utf8 s).length + 1) 0 []).map fun out => (fromUtf8 out).getD s

/-- `A-Z a-z 0-9 - _ . ! ~ * ' ( )` -/
def isPlain (b : UInt8) : Bool :=
  0x41 ≤ b && b ≤ 0x5a || 0x61 ≤ b && b ≤ 0x7a || 0x30 ≤ b && b ≤ 0x39 ||
    [0x2d, 0x5f, 0x2e, 0x21, 0x7e, 0x2a, 0x27, 0x28, 0x29].contains b

/-- bytes that are pushed as characters -/
def encodeComponent (s : String) : String :=
  .ofList (asciiText (encodeBytes isPlain (utf8 s)))

def instanceRoute (name : String) : String := "#/instances/" ++ encodeComponent name

/-- `split_once('?')`, with an empty query where there is none -/
def splitQuery (body : List Char) : List Char × List Char :=
  (body.takeWhile (· ≠ '?'), (body.dropWhile (· ≠ '?')).tail)

def parse (hash : String) : Except (Stop Empty) Route :=
  let raw := if hash = "" then "#/" else if hash.toList.head? = some '#' then hash else "#" ++ hash
  let body := raw.toList.dropWhile (· = '#')
  let (path, query) := splitQuery body
  let parts := (path.splitOn '/').filter (· ≠ [])
  let p0 := String.ofList (parts.head?.getD [])
  let p1 := String.ofList ((parts[1]?).getD [])
  let route := fun page inst => Route.mk page inst (.ofList query) raw
  if p0 = "" then .ok (route .home "")
  else if p0 = "instances" then
    if p1 = "" then .ok (route .home "") else (percentDecode p1).map (route .instance_)
  else if p0 = "servers" then .ok (route .servers "")
  else if p0 = "library" ∧ p1 = "versions" ∨ p0 = "versions" then .ok (route .versions "")
  else if p0 = "library" ∧ p1 = "import" ∨ p0 = "import" then .ok (route .import_ "")
  else if p0 = "mods" then .ok (route .mods "")
  else if p0 = "client" then .ok (route .client "")
  else if p0 = "account" then .ok (route .account "")
  else if p0 = "settings" then .ok (route .settings "")
  else if p0 = "donaciones" then .ok (route .donations "")
  else if p0 = "armario" then .ok (route .wardrobe "")
  else .ok (route .home "")

/-! ## The loop -/

/-- the pairs that the number parser accepts -/
def parsedPair (a b : UInt8) : Option UInt8 := (fromUtf8 [a, b]).bind fun _ => fromStrRadix16 [a, b]

theorem index_append (front : List UInt8) (b : UInt8) (tail : List UInt8) :
    index (ε := Empty) (front ++ b :: tail) front.length = .ok b := by
  simp [index]

theorem slice_append (front : List UInt8) (a b c : UInt8) (tail : List UInt8) :
    slice (ε := Empty) (front ++ a :: b :: c :: tail) (front.length + 1) (front.length + 3) = .ok [b, c] := by
  rw [slice, if_pos (by simp)]
  simp [List.take_append, List.drop_append]

/-- **The loop** ends, reads within the buffer, and decodes the pairs that the number parser accepts. -/
theorem decodeLoop_eq {turns : ℕ} (front : List UInt8) {tail : List UInt8} (out : List UInt8) (h : tail.length < turns) :
    decodeLoop (front ++ tail) turns front.length out = .ok (out ++ decode parsedPair tail) := by
  induction turns generalizing front tail out with
  | zero => cases h
  | succ turns ih =>
    have hnext : ∀ (skipped rest : List UInt8) (v : UInt8), tail = skipped ++ rest → skipped ≠ [] →
        decodeLoop (front ++ tail) turns (front.length + skipped.length) (out ++ [v]) =
          .ok (out ++ (v :: decode parsedPair rest)) := by
      rintro skipped rest v rfl hne
      have hpos := List.length_pos_iff.2 hne
      rw [List.length_append] at h
      rw [← List.append_assoc, ← List.length_append, ih _ _ (by omega), List.append_assoc]
      rfl
    cases tail with
    | nil =>
      rw [decodeLoop, if_neg (by simp)]
      simp [decode]
    | cons a tail =>
      rw [decodeLoop, if_pos (by simp), decodeTurn, index_append, Except.bind]
      have hpass : decodeLoop (front ++ a :: tail) turns (front.length + 1) (out ++ [a]) =
          .ok (out ++ (a :: decode parsedPair tail)) := hnext [a] tail a rfl (List.cons_ne_nil a [])
      by_cases ha : a = percent
      · subst ha
        rcases tail with _ | ⟨b, _ | ⟨c, tail⟩⟩
        · rw [if_neg (by simp)]
          exact hpass
        · rw [if_neg (by simp)]
          exact hpass
        · rw [if_pos ⟨rfl, by simp⟩, slice_append]
          cases hpair : parsedPair b c with
          | some v =>
            rw [decode_triple hpair]
            have hfound : (fromUtf8 [b, c]).bind (fun _ => fromStrRadix16 [b, c]) = some v := hpair
            simp only [Except.map, Except.bind, hfound]
            exact hnext [percent, b, c] tail v rfl (List.cons_ne_nil _ _)
          | none =>
            rw [decode_no_triple hpair]
            have hfound : (fromUtf8 [b, c]).bind (fun _ => fromStrRadix16 [b, c]) = none := hpair
            simp only [Except.map, Except.bind, hfound]
            exact hpass
      · rw [if_neg fun hand => ha hand.1, decode_cons_of_ne ha]
        exact hpass

theorem percentDecode_eq (s : String) :
    percentDecode s = .ok ((fromUtf8 (decode parsedPair (utf8 s))).getD s) := by
  have hloop := decodeLoop_eq [] [] (Nat.lt_succ_self (utf8 s).length)
  rw [percentDecode]
  change Except.map _ (decodeLoop ([] ++ utf8 s) _ ([] : List UInt8).length []) = _
  rw [hloop]
  rfl

/-! ## Pairs -/

/-- a sign, which a number parser accepts before digits -/
def plus : UInt8 := 0x2b

theorem fromUtf8_pair {a b : UInt8} (ha : a.toNat < 0x80) (hb : b.toNat < 0x80) :
    ∃ s, fromUtf8 [a, b] = some s := by
  have hbytes : utf8 (.ofList (asciiText [a, b])) = [a, b] := by
    rw [utf8_eq_chars, String.toList_ofList, utf8Chars_asciiText]
    simp [ha, hb]
  rw [← hbytes]
  exact ⟨_, fromUtf8_utf8 _⟩

/-- **What the number parser accepts**: two digits, or a sign and a digit. -/
theorem parsedPair_eq (a b : UInt8) :
    parsedPair a b = if a = plus then (hexValue b).map UInt8.ofNat else hexPair a b := by
  have hone : ∀ {d n}, hexValue d = some n → digitsRadix16 0 [d] = some (UInt8.ofNat n) := by
    intro d n hn
    have := hexValue_lt hn
    rw [digitsRadix16, hn, Option.bind_some, if_pos (by omega)]
    simp [digitsRadix16]
  unfold parsedPair
  rw [fromStrRadix16]
  by_cases ha : a = plus
  · subst ha
    rw [if_pos ⟨rfl, List.cons_ne_nil b []⟩, if_pos rfl]
    cases hb : hexValue b with
    | none => rw [digitsRadix16, hb, Option.bind_none, Option.bind_fun_none, Option.map_none]
    | some n =>
      obtain ⟨s, hs⟩ := fromUtf8_pair (a := plus) (by decide) (hexValue_bounds hb).2
      rw [hs, Option.bind_some, hone hb]
      rfl
  · rw [if_neg fun hand => ha hand.1, if_neg ha, hexPair]
    cases hm : hexValue a with
    | none => rw [digitsRadix16, hm, Option.bind_none, Option.bind_fun_none, Option.bind_none]
    | some m =>
      have hmlt := hexValue_lt hm
      rw [digitsRadix16, hm, Option.bind_some, Option.bind_some, if_pos (by omega), digitsRadix16]
      cases hn : hexValue b with
      | none => rw [Option.bind_none, Option.bind_fun_none, Option.map_none]
      | some n =>
        have hnlt := hexValue_lt hn
        obtain ⟨s, hs⟩ := fromUtf8_pair (hexValue_bounds hm).2 (hexValue_bounds hn).2
        rw [hs, Option.bind_some, Option.bind_some, if_pos (by omega), digitsRadix16, Option.map_some]
        congr 2
        omega

theorem parsedPair_of_hexPair {a b v : UInt8} (h : hexPair a b = some v) : parsedPair a b = some v := by
  obtain ⟨m, n, hm, -⟩ := hexPair_some h
  have ha : a ≠ plus := by
    rintro rfl
    cases hm
  rw [parsedPair_eq, if_neg ha, h]

/-! ## Round trips -/

theorem plain_bounds {b : UInt8} (h : isPlain b = true) : b.toNat < 0x80 ∧ b ≠ 0x2f ∧ b ≠ 0x3f ∧ b ≠ percent := by
  refine ⟨?_, ?_, ?_, ?_⟩
  · simp only [isPlain, List.contains_cons, List.contains_nil, Bool.or_false, Bool.or_eq_true, Bool.and_eq_true,
      decide_eq_true_eq, beq_iff_eq, UInt8.le_iff_toNat_le, ← UInt8.toNat_inj, UInt8.reduceToNat] at h
    omega
  all_goals
    rintro rfl
    revert h
    decide

/-- what an encoded name is made of -/
theorem encoded_bounds {bytes : List UInt8} {b : UInt8} (h : b ∈ encodeBytes isPlain bytes) :
    b.toNat < 0x80 ∧ b ≠ 0x2f ∧ b ≠ 0x3f := by
  have hdigit : ∀ n < 16, (hexDigit n).toNat < 0x80 ∧ hexDigit n ≠ 0x2f ∧ hexDigit n ≠ 0x3f := by
    intro n hn
    have hvalue := hexValue_hexDigit hn
    refine ⟨(hexDigit_bounds hn).2, ?_, ?_⟩ <;>
    · intro heq
      rw [heq] at hvalue
      cases hvalue
  obtain ⟨c, -, hc⟩ := List.mem_flatMap.1 h
  have hlt := c.toNat_lt
  unfold encodeByte at hc
  split_ifs at hc with hplain
  · rw [List.mem_singleton.1 hc]
    obtain ⟨h1, h2, h3, -⟩ := plain_bounds hplain
    exact ⟨h1, h2, h3⟩
  · simp only [List.mem_cons, List.not_mem_nil, or_false] at hc
    rcases hc with rfl | rfl | rfl
    · decide
    · exact hdigit _ (by omega)
    · exact hdigit _ (by omega)

theorem utf8_encodeComponent (s : String) : utf8 (encodeComponent s) = encodeBytes isPlain (utf8 s) := by
  rw [encodeComponent, utf8_eq_chars, String.toList_ofList]
  exact utf8Chars_asciiText fun b hb => (encoded_bounds hb).1

theorem decode_encodeComponent (s : String) : percentDecode (encodeComponent s) = .ok s := by
  rw [percentDecode_eq, utf8_encodeComponent,
    decode_encodeBytes (by decide) fun _ _ _ => parsedPair_of_hexPair, fromUtf8_utf8]
  rfl

theorem encoded_chars {s : String} {c : Char} (h : c ∈ (encodeComponent s).toList) : c ≠ '/' ∧ c ≠ '?' := by
  rw [encodeComponent, String.toList_ofList] at h
  obtain ⟨b, hb, rfl⟩ := List.mem_map.1 h
  obtain ⟨hascii, hslash, hquestion⟩ := encoded_bounds hb
  have hcode := toNat_ofNat_ascii hascii
  constructor
  · intro heq
    rw [heq] at hcode
    exact hslash (UInt8.toNat_inj.1 hcode.symm)
  · intro heq
    rw [heq] at hcode
    exact hquestion (UInt8.toNat_inj.1 hcode.symm)

theorem encoded_ne_nil {s : String} (h : s ≠ "") : (encodeComponent s).toList ≠ [] := by
  intro hnil
  have hempty : encodeComponent s = "" := String.toList_inj.1 hnil
  have hdecode := decode_encodeComponent s
  rw [hempty] at hdecode
  exact h (Except.ok.inj hdecode).symm

theorem instances_chars : ("#/instances/" : String).toList = '#' :: '/' :: ("instances".toList ++ ['/']) := by decide

/-- an instance's address, and what may follow it -/
theorem parse_instance {name : String} (hname : name ≠ "") (tail query : List Char)
    (htail : tail = [] ∧ query = [] ∨ tail = '?' :: query) :
    parse (instanceRoute name ++ .ofList tail) =
      .ok ⟨.instance_, name, .ofList query, instanceRoute name ++ .ofList tail⟩ := by
  have hchars : (instanceRoute name ++ String.ofList tail).toList =
      '#' :: '/' :: ("instances".toList ++ '/' :: ((encodeComponent name).toList ++ tail)) := by
    rw [String.toList_append, instanceRoute, String.toList_append, instances_chars, String.toList_ofList]
    simp
  have hne : instanceRoute name ++ String.ofList tail ≠ "" := by
    intro h
    rw [h] at hchars
    cases hchars
  have hpath : ∀ c ∈ '/' :: ("instances".toList ++ '/' :: (encodeComponent name).toList), decide (c ≠ '?') = true := by
    intro c hc
    rw [decide_eq_true_eq]
    rcases List.mem_cons.1 hc with rfl | hc
    · decide
    rcases List.mem_append.1 hc with hc | hc
    · rintro rfl
      revert hc
      decide
    rcases List.mem_cons.1 hc with rfl | hc
    · decide
    · exact (encoded_chars hc).2
  have hsplit : splitQuery ('/' :: ("instances".toList ++ '/' :: ((encodeComponent name).toList ++ tail))) =
      ('/' :: ("instances".toList ++ '/' :: (encodeComponent name).toList), query) := by
    have hbody : '/' :: ("instances".toList ++ '/' :: ((encodeComponent name).toList ++ tail)) =
        '/' :: ("instances".toList ++ '/' :: (encodeComponent name).toList) ++ tail := by simp
    rw [hbody, splitQuery, List.takeWhile_append_of_pos hpath, List.dropWhile_append_of_pos hpath]
    rcases htail with ⟨rfl, rfl⟩ | rfl
    · simp
    · rw [List.takeWhile_cons_of_neg (by decide), List.dropWhile_cons_of_neg (by decide), List.append_nil]
      rfl
  have hparts : (('/' :: ("instances".toList ++ '/' :: (encodeComponent name).toList)).splitOn '/').filter (· ≠ []) =
      ["instances".toList, (encodeComponent name).toList] := by
    have hslash : '/' ∉ (encodeComponent name).toList := fun h => (encoded_chars h).1 rfl
    have hfirst : '/' :: ("instances".toList ++ '/' :: (encodeComponent name).toList) =
        [] ++ '/' :: ("instances".toList ++ '/' :: (encodeComponent name).toList) := rfl
    rw [hfirst, List.splitOn_append_cons_self_of_not_mem List.not_mem_nil,
      List.splitOn_append_cons_self_of_not_mem (by decide), List.splitOn_eq_singleton hslash]
    have hnonempty := encoded_ne_nil hname
    simp [hnonempty]
  have hencoded : encodeComponent name ≠ "" := fun h => encoded_ne_nil hname (congrArg String.toList h)
  unfold parse
  simp only [if_neg hne, hchars, List.head?_cons, if_true]
  rw [List.dropWhile_cons_of_pos (by decide), List.dropWhile_cons_of_neg (by decide)]
  simp only [hsplit, hparts, List.head?_cons, Option.getD_some, List.getElem?_cons_succ, List.getElem?_cons_zero,
    String.ofList_toList]
  rw [if_neg (by decide), if_pos trivial, if_neg hencoded, decode_encodeComponent]
  rfl

/-! ## What is decoded -/

/-- two hexadecimal digits after a `%`, and nothing else; the text as it is where that is no text -/
def decoded (s : String) : String := (fromUtf8 (decode hexPair (utf8 s))).getD s

/-- a `%`, a sign and a digit -/
def SignPair (bytes : List UInt8) : Prop :=
  ∃ front b rest, bytes = front ++ percent :: plus :: b :: rest ∧ (hexValue b).isSome

/-- the bytes of some text -/
def IsText (bytes : List UInt8) : Prop := ∃ cs, bytes = utf8Chars cs

/-- the same bytes, but for an ASCII byte in the place of a triple of them -/
inductive Signed : List UInt8 → List UInt8 → Prop
  | nil : Signed [] []
  | same (b : UInt8) {x y : List UInt8} (h : Signed x y) : Signed (b :: x) (b :: y)
  | sign {v b : UInt8} {x y : List UInt8} (hv : v.toNat < 0x80) (hb : b.toNat < 0x80) (h : Signed x y) :
      Signed (v :: x) (percent :: plus :: b :: y)

theorem Signed.refl (bytes : List UInt8) : Signed bytes bytes := by
  induction bytes with
  | nil => exact .nil
  | cons b bytes ih => exact .same b ih

theorem Signed.length_le {x y : List UInt8} (h : Signed x y) : x.length ≤ y.length := by
  induction h with
  | nil => exact le_rfl
  | same b _ ih =>
    simp only [List.length_cons]
    omega
  | sign _ _ _ ih =>
    simp only [List.length_cons]
    omega

theorem parsedPair_plus {b v : UInt8} (h : parsedPair plus b = some v) : v.toNat < 0x80 ∧ (hexValue b).isSome := by
  rw [parsedPair_eq, if_pos rfl] at h
  obtain ⟨n, hn, rfl⟩ := Option.map_eq_some_iff.1 h
  have := hexValue_lt hn
  refine ⟨?_, by simp [hn]⟩
  rw [UInt8.toNat_ofNat']
  omega

theorem hexPair_plus (b : UInt8) : hexPair plus b = none := rfl

/-- without a pair for it, a sign with its digit is passed over -/
theorem decode_sign {b : UInt8} (hb : b ≠ percent) (rest : List UInt8) :
    decode hexPair (percent :: plus :: b :: rest) = percent :: plus :: b :: decode hexPair rest := by
  rw [decode_no_triple (hexPair_plus b), decode_cons_of_ne (by decide), decode_cons_of_ne hb]

theorem signed_decode (bytes : List UInt8) : Signed (decode parsedPair bytes) (decode hexPair bytes) := by
  fun_induction decode parsedPair bytes with
  | case1 | case2 | case3 => exact .refl _
  | case4 b c rest v hv ih =>
    by_cases hb : b = plus
    · subst hb
      obtain ⟨hv', hc⟩ := parsedPair_plus hv
      obtain ⟨n, hn⟩ := Option.isSome_iff_exists.1 hc
      rw [decode_sign (hexValue_ne_percent hn)]
      exact .sign hv' (hexValue_bounds hn).2 ih
    · rw [parsedPair_eq, if_neg hb] at hv
      rw [decode_triple hv]
      exact .same v ih
  | case5 b c rest hno ih =>
    have hhex : hexPair b c = none := by
      by_contra h
      obtain ⟨v, hv⟩ := Option.ne_none_iff_exists'.1 h
      rw [parsedPair_of_hexPair hv] at hno
      cases hno
    rw [decode_no_triple hhex]
    exact .same percent ih
  | case6 a b c rest hne ih =>
    rw [decode_cons_of_ne hne]
    exact .same a ih

/-- a sign with its digit is decoded to one byte less than it is -/
theorem length_decode_lt {bytes : List UInt8} (h : SignPair bytes) :
    (decode parsedPair bytes).length < (decode hexPair bytes).length := by
  obtain ⟨front, d, tail, heq, hd⟩ := h
  obtain ⟨n, hn⟩ := Option.isSome_iff_exists.1 hd
  fun_induction decode parsedPair bytes generalizing front with
  | case1 => simp at heq
  | case2 a =>
    have := congrArg List.length heq
    simp at this
    omega
  | case3 a b =>
    have := congrArg List.length heq
    simp at this
    omega
  | case4 b c rest v hv ih =>
    by_cases hb : b = plus
    · subst hb
      obtain ⟨hv', hc⟩ := parsedPair_plus hv
      obtain ⟨m, hm⟩ := Option.isSome_iff_exists.1 hc
      rw [decode_sign (hexValue_ne_percent hm)]
      have := (signed_decode rest).length_le
      simp only [List.length_cons]
      omega
    · rw [parsedPair_eq, if_neg hb] at hv
      obtain ⟨i, j, hi, hj⟩ := hexPair_some hv
      rw [decode_triple hv]
      rcases front with _ | ⟨x, _ | ⟨y, _ | ⟨z, front⟩⟩⟩
      · exact absurd (List.cons.inj (List.cons.inj heq).2).1 hb
      · exact absurd (List.cons.inj (List.cons.inj heq).2).1 (hexValue_ne_percent hi)
      · exact absurd (List.cons.inj (List.cons.inj (List.cons.inj heq).2).2).1 (hexValue_ne_percent hj)
      · have := ih front (List.cons.inj (List.cons.inj (List.cons.inj heq).2).2).2
        simp only [List.length_cons]
        omega
  | case5 b c rest hno ih =>
    rcases front with _ | ⟨x, front⟩
    · obtain ⟨rfl, htail⟩ := List.cons.inj (List.cons.inj heq).2
      obtain ⟨rfl, -⟩ := List.cons.inj htail
      rw [parsedPair_eq, if_pos rfl, hn] at hno
      cases hno
    · have hlt := ih front (List.cons.inj heq).2
      have hhex : hexPair b c = none := by
        by_contra h
        obtain ⟨v, hv⟩ := Option.ne_none_iff_exists'.1 h
        rw [parsedPair_of_hexPair hv] at hno
        cases hno
      rw [decode_no_triple hhex]
      simp only [List.length_cons]
      omega
  | case6 a b c rest hne ih =>
    rcases front with _ | ⟨x, front⟩
    · exact absurd (List.cons.inj heq).1 hne
    · have hlt := ih front (List.cons.inj heq).2
      rw [decode_cons_of_ne hne]
      simp only [List.length_cons]
      omega

/-! ## Texts -/

theorem isText_cons {b : UInt8} (hb : b.toNat < 0x80) (rest : List UInt8) : IsText (b :: rest) ↔ IsText rest := by
  constructor
  · rintro ⟨cs, hcs⟩
    rcases cs with _ | ⟨c, cs⟩
    · cases hcs
    · have hmem : b ∈ String.utf8EncodeChar c := by
        obtain ⟨first, more, hfirst⟩ := List.exists_cons_of_ne_nil (String.utf8EncodeChar_ne_nil (c := c))
        rw [utf8Chars_cons, hfirst, List.cons_append] at hcs
        rw [hfirst, (List.cons.inj hcs).1]
        exact List.mem_cons_self
      rw [utf8Chars_cons, ascii_mem_utf8EncodeChar hb hmem, utf8EncodeChar_ofNat hb] at hcs
      exact ⟨cs, (List.cons.inj hcs).2⟩
  · rintro ⟨cs, rfl⟩
    exact ⟨Char.ofNat b.toNat :: cs, by rw [utf8Chars_cons, utf8EncodeChar_ofNat hb]; rfl⟩

/-- a text begins with an ASCII byte, or with bytes that are none and make a character -/
theorem IsText.cases {bytes : List UInt8} (h : IsText bytes) : bytes = [] ∨
    (∃ b rest, bytes = b :: rest ∧ b.toNat < 0x80 ∧ IsText rest) ∨
      ∃ c rest, bytes = String.utf8EncodeChar c ++ rest ∧ (∀ b ∈ String.utf8EncodeChar c, 0x80 ≤ b.toNat) ∧
        IsText rest := by
  obtain ⟨cs, rfl⟩ := h
  rcases cs with _ | ⟨c, cs⟩
  · exact Or.inl rfl
  · right
    by_cases hascii : ∃ b ∈ String.utf8EncodeChar c, b.toNat < 0x80
    · obtain ⟨b, hmem, hb⟩ := hascii
      left
      refine ⟨b, utf8Chars cs, ?_, hb, cs, rfl⟩
      rw [utf8Chars_cons, ascii_mem_utf8EncodeChar hb hmem, utf8EncodeChar_ofNat hb]
      rfl
    · push Not at hascii
      exact Or.inr ⟨c, utf8Chars cs, rfl, hascii, cs, rfl⟩

theorem isText_char (c : Char) {rest : List UInt8} (h : IsText rest) : IsText (String.utf8EncodeChar c ++ rest) := by
  obtain ⟨cs, rfl⟩ := h
  exact ⟨c :: cs, rfl⟩

theorem signed_left {front x z : List UInt8} (hfront : ∀ b ∈ front, 0x80 ≤ b.toNat) (h : Signed (front ++ x) z) :
    ∃ y, z = front ++ y ∧ Signed x y := by
  induction front generalizing z with
  | nil => exact ⟨z, rfl, h⟩
  | cons b front ih =>
    have hb := hfront b List.mem_cons_self
    cases h with
    | same _ h =>
      obtain ⟨y, rfl, hy⟩ := ih (fun c hc => hfront c (List.mem_cons_of_mem b hc)) h
      exact ⟨y, rfl, hy⟩
    | sign hv => omega

theorem signed_right {front y z : List UInt8} (hfront : ∀ b ∈ front, 0x80 ≤ b.toNat) (h : Signed z (front ++ y)) :
    ∃ x, z = front ++ x ∧ Signed x y := by
  induction front generalizing z with
  | nil => exact ⟨z, rfl, h⟩
  | cons b front ih =>
    have hb := hfront b List.mem_cons_self
    generalize hw : b :: front ++ y = w at h
    cases h with
    | nil => cases hw
    | same c h =>
      obtain ⟨rfl, rfl⟩ := List.cons.inj hw
      obtain ⟨x, rfl, hx⟩ := ih (fun c hc => hfront c (List.mem_cons_of_mem b hc)) h
      exact ⟨x, rfl, hx⟩
    | sign =>
      rw [(List.cons.inj hw).1] at hb
      exact absurd hb (by decide)

/-- **One is a text when the other is.** -/
theorem isText_signed {x y : List UInt8} (h : Signed x y) : IsText x ↔ IsText y := by
  induction hn : y.length using Nat.strong_induction_on generalizing x y with
  | _ n ih =>
    subst hn
    constructor
    · intro hx
      rcases hx.cases with rfl | ⟨b, rest, rfl, hb, hrest⟩ | ⟨c, rest, rfl, hc, hrest⟩
      · cases h
        exact hx
      · cases h with
        | same _ h => exact (isText_cons hb _).2 ((ih _ (by simp) h rfl).1 hrest)
        | @sign _ d _ y' _ hd h =>
          have hy : IsText y' := (ih _ (by simp only [List.length_cons]; omega) h rfl).1 hrest
          exact (isText_cons (by decide) _).2 ((isText_cons (by decide) _).2 ((isText_cons hd _).2 hy))
      · obtain ⟨y', rfl, hy⟩ := signed_left hc h
        have hpos : 0 < (String.utf8EncodeChar c).length := List.length_pos_iff.2 String.utf8EncodeChar_ne_nil
        exact isText_char c ((ih _ (by rw [List.length_append]; omega) hy rfl).1 hrest)
    · intro hy
      rcases hy.cases with rfl | ⟨b, rest, rfl, hb, hrest⟩ | ⟨c, rest, rfl, hc, hrest⟩
      · cases h
        exact hy
      · cases h with
        | same _ h => exact (isText_cons hb _).2 ((ih _ (by simp) h rfl).2 hrest)
        | @sign v d x' y' hv hd h =>
          have hy' : IsText y' := (isText_cons hd _).1 ((isText_cons (by decide) _).1 hrest)
          exact (isText_cons hv _).2 ((ih _ (by simp only [List.length_cons]; omega) h rfl).2 hy')
      · obtain ⟨x', rfl, hx⟩ := signed_right hc h
        have hpos : 0 < (String.utf8EncodeChar c).length := List.length_pos_iff.2 String.utf8EncodeChar_ne_nil
        exact isText_char c ((ih _ (by rw [List.length_append]; omega) hx rfl).2 hrest)

theorem fromUtf8_ne_none {bytes : List UInt8} : fromUtf8 bytes ≠ none ↔ IsText bytes := by
  rw [Option.ne_none_iff_exists']
  constructor
  · rintro ⟨s, hs⟩
    unfold fromUtf8 at hs
    split_ifs at hs with h
    exact ⟨_, h.symm⟩
  · rintro ⟨cs, rfl⟩
    refine ⟨.ofList cs, ?_⟩
    have hbytes : utf8 (String.ofList cs) = utf8Chars cs := by rw [utf8_eq_chars, String.toList_ofList]
    rw [← hbytes, fromUtf8_utf8]

theorem utf8_of_fromUtf8 {bytes : List UInt8} {s : String} (h : fromUtf8 bytes = some s) : utf8 s = bytes := by
  unfold fromUtf8 at h
  split_ifs at h with hbytes
  obtain rfl := Option.some.inj h
  exact hbytes

/-- **Where decoding is as documented**: the text has no sign with a digit after a `%`, or is left as it is. -/
theorem percentDecode_iff (s : String) : percentDecode s = .ok (decoded s) ↔
    ¬ SignPair (utf8 s) ∨ fromUtf8 (decode hexPair (utf8 s)) = none := by
  have htext := isText_signed (signed_decode (utf8 s))
  rw [← fromUtf8_ne_none, ← fromUtf8_ne_none, not_iff_not] at htext
  rw [percentDecode_eq, Except.ok.injEq, decoded]
  constructor
  · intro heq
    by_contra hand
    push Not at hand
    obtain ⟨hsign, hhex⟩ := hand
    obtain ⟨t, ht⟩ := Option.ne_none_iff_exists'.1 hhex
    obtain ⟨t', ht'⟩ := Option.ne_none_iff_exists'.1 (mt htext.1 hhex)
    rw [ht, ht', Option.getD_some, Option.getD_some] at heq
    have hlt := length_decode_lt hsign
    rw [← utf8_of_fromUtf8 ht, ← utf8_of_fromUtf8 ht', heq] at hlt
    exact lt_irrefl _ hlt
  · rintro (hno | hnone)
    · have hsame : decode parsedPair (utf8 s) = decode hexPair (utf8 s) := by
        apply decode_congr
        intro front b c rest hbytes
        rw [parsedPair_eq]
        split_ifs with hb
        · subst hb
          have hc : hexValue c = none := by
            by_contra hc
            exact hno ⟨front, c, rest, hbytes, Option.isSome_iff_ne_none.2 hc⟩
          rw [hc, hexPair_plus]
          rfl
        · rfl
      rw [hsame]
    · rw [hnone, htext.2 hnone]

/-- **Routes.** An instance's address is read as that instance with its query, an encoded text decodes to itself, decoding
ends within its buffer, and it is as documented unless a sign stands in the place of a digit. -/
theorem routes_round_trip (s : String) :
    (s ≠ "" → ∀ q : String, '#' ∉ q.toList →
      (∃ r, parse (instanceRoute s) = .ok r ∧ r.page = .instance_ ∧ r.inst = s ∧ r.query = "") ∧
      ∃ r, parse (instanceRoute s ++ "?" ++ q) = .ok r ∧ r.page = .instance_ ∧ r.inst = s ∧ r.query = q) ∧
    percentDecode (encodeComponent s) = .ok s ∧ (∃ t, percentDecode s = .ok t) ∧
    (percentDecode s = .ok (decoded s) ↔ ¬ SignPair (utf8 s) ∨ fromUtf8 (decode hexPair (utf8 s)) = none) := by
  refine ⟨?_, decode_encodeComponent s, ⟨_, percentDecode_eq s⟩, percentDecode_iff s⟩
  intro hn q _
  constructor
  · have hparse := parse_instance hn [] [] (Or.inl ⟨rfl, rfl⟩)
    have hnil : String.ofList [] = "" := rfl
    rw [hnil, String.append_empty] at hparse
    exact ⟨_, hparse, rfl, rfl, rfl⟩
  · have hparse := parse_instance hn ('?' :: q.toList) q.toList (Or.inr rfl)
    have htail : String.ofList ('?' :: q.toList) = "?" ++ q := by
      have hquestion : ("?" : String).toList = ['?'] := by decide
      apply String.toList_inj.1
      rw [String.toList_ofList, String.toList_append, hquestion, List.singleton_append]
    rw [htail, ← String.append_assoc, String.ofList_toList] at hparse
    exact ⟨_, hparse, rfl, rfl, rfl⟩

/-- **A sign is taken for a digit.** `%+A` decodes to a line feed, where two digits would be left as they are. -/
theorem sign_decoded : percentDecode "%+A" = .ok "\n" ∧ decoded "%+A" = "%+A" := by
  decide

end EspectralClient.Router
