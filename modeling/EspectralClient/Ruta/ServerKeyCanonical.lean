/-
What a server key is promised to be, and when it is.

- `Canonical`: a key is made into itself, is the key of its own host and port, and is the one that the resolver's host and
  port are made into.
- `Clean`: the hosts whose keys are.
- `canonical_iff`: the key of an address is canonical exactly when its host is clean.
-/
import EspectralClient.Ruta.ServerKey

namespace EspectralClient.RutaProtocol

open EspectralClient.Lib EspectralClient.Lib.JavaString

/-! ## What is promised -/

/-- `Character.isWhitespace` -/
def isWhitespace (c : UInt16) : Bool :=
  (0x09 ≤ c && c ≤ 0x0d) || (0x1c ≤ c && c ≤ 0x20) || c = 0x1680 || (0x2000 ≤ c && c ≤ 0x200a && c ≠ 0x2007) ||
    c = 0x2028 || c = 0x2029 || c = 0x205f || c = 0x3000

/-- an address with a host and a port, as it is typed -/
structure Typed (raw host : JavaString) (port : ℤ) : Prop where
  text : ∃ p, (raw = host ++ colon :: p ∨ raw = lbracket :: (host ++ rbracket :: colon :: p)) ∧
    (p.all isDigit = true ∧ p.length ≤ 5 ∧ (digitsValue p : ℤ) = port)
  free : colon ∉ host ∧ lbracket ∉ host ∧ rbracket ∉ host
  blank : ∀ c ∈ host, isWhitespace c = false
  low : 1 ≤ port
  high : port ≤ 65535

structure Canonical (L : LowerCase) (raw : JavaString) : Prop where
  again : ∀ k, normalize L (some raw) = some k → normalize L (some k) = some k
  fields : ∀ k, normalize L (some raw) = some k → ∃ host port,
    hostOf (some k) = .ok host ∧ portOf (some k) = .ok port ∧ keyOf L host port = some k
  resolver : ∀ host port, Typed raw host port → keyOf L (some host) port = normalize L (some raw)

/-- a host without blanks at its ends, and without the brackets that a key reads as its own -/
structure Clean (h : JavaString) : Prop where
  trimmed : trim h = h
  literal : colon ∈ h → rbracket ∉ h
  name : colon ∉ h → h.head? ≠ some lbracket

/-! ## Clean hosts -/

variable {L : LowerCase}

theorem normalize_eq {raw H : JavaString} {port : ℤ} (h : Addressed raw H port) : normalize L (some raw) =
    if trimDots (L.lower H) = [] then none else some (keyText (trimDots (L.lower H)) port) := by
  split
  · next hempty =>
    refine Option.eq_none_iff_forall_ne_some.2 ?_
    intro k hk
    obtain ⟨H', port', h', hne, -⟩ := normalize_iff.1 hk
    obtain ⟨p, hparts, -⟩ := h.parts
    obtain ⟨p', hparts', -⟩ := h'.parts
    obtain ⟨rfl, -⟩ := hparts.unique hparts'
    exact hne hempty
  · next hne => exact normalize_iff.2 ⟨H, port, h, hne, rfl⟩

theorem decimal_ends (n : ℕ) : ∀ c, (decimal n).getLast? = some c → ¬ c ≤ 0x20 := by
  intro c hc hblank
  have hdigit := decimal_digits (List.mem_of_getLast? hc)
  have hle := UInt16.le_iff_toNat_le.1 hblank
  have h20 : (0x20 : UInt16).toNat = 0x20 := rfl
  omega

theorem getLast_append {a b : JavaString} (hb : b ≠ []) : (a ++ b).getLast? = b.getLast? := by
  rw [List.getLast?_append, List.getLast?_eq_some_getLast hb, Option.some_or]

theorem trim_keyText {h : JavaString} (hne : h ≠ []) (hclean : Clean h) (port : ℤ) :
    trim (keyText h port) = keyText h port := by
  obtain ⟨hhead, hlast⟩ := trim_eq_self_iff.1 hclean.trimmed
  have hcons : ∀ rest : JavaString, colon :: rest ≠ [] := fun rest => List.cons_ne_nil _ _
  have hport : ∀ a : JavaString, (a ++ colon :: decimal port.toNat).getLast? = (decimal port.toNat).getLast? := by
    intro a
    rw [List.append_cons, getLast_append (decimal_ne_nil _)]
  unfold keyText
  split_ifs
  · refine trim_eq_self_iff.2 ⟨?_, ?_⟩
    · intro c hc
      cases hc
      decide
    · intro c hc
      rw [← List.cons_append, List.getLast?_concat] at hc
      cases hc
      decide
  · exact hclean.trimmed
  · refine trim_eq_self_iff.2 ⟨?_, ?_⟩
    · intro c hc
      cases hc
      decide
    · intro c hc
      have hsplit : lbracket :: (h ++ rbracket :: colon :: decimal port.toNat) =
          (lbracket :: (h ++ [rbracket])) ++ colon :: decimal port.toNat := by simp
      rw [hsplit, hport] at hc
      exact decimal_ends _ c hc
  · refine trim_eq_self_iff.2 ⟨?_, ?_⟩
    · intro c hc
      rw [head_append hne] at hc
      exact hhead c hc
    · intro c hc
      rw [hport] at hc
      exact decimal_ends _ c hc

theorem portFrom_decimal {port : ℤ} (hlow : 1 ≤ port) (hhigh : port ≤ 65535) :
    portFrom (some (decimal port.toNat)) = port := by
  have hparse := parsePort_decimal hlow hhigh
  cases hdecimal : decimal port.toNat with
  | nil => exact absurd hdecimal (decimal_ne_nil _)
  | cons c text =>
    rw [hdecimal] at hparse
    exact hparse

/-- the key of a clean host is taken apart into the host and the port -/
theorem addressed_keyText {h : JavaString} (hne : h ≠ []) (hclean : Clean h) {port : ℤ} (hlow : 1 ≤ port)
    (hhigh : port ≤ 65535) : Addressed (keyText h port) h port := by
  refine ⟨?_, by omega⟩
  rw [trim_keyText hne hclean]
  have hdecimal := portFrom_decimal hlow hhigh
  unfold keyText
  split_ifs with hport hcolon hcolon
  · exact ⟨none, .bracket (hclean.literal hcolon), hport.symm⟩
  · exact ⟨none, .whole (hclean.name hcolon) fun h => absurd h hcolon, hport.symm⟩
  · exact ⟨_, .bracketPort (hclean.literal hcolon), hdecimal⟩
  · refine ⟨_, .port ?_ hcolon (colon_not_mem_decimal _), hdecimal⟩
    rw [head_append hne]
    exact hclean.name hcolon

theorem unbracketed_clean {h : JavaString} (hclean : Clean h) : unbracketed h = h := by
  unfold unbracketed
  rw [if_neg]
  rintro ⟨-, hhead, hlast⟩
  by_cases hcolon : colon ∈ h
  · exact hclean.literal hcolon (List.mem_of_getLast? hlast)
  · exact hclean.name hcolon hhead

/-- the key of a host that was made, and of its port -/
theorem keyOf_clean {h : JavaString} (hne : h ≠ []) (hclean : Clean h) (hlower : L.lower h = h) (hdots : trimDots h = h)
    {port : ℤ} (hlow : 1 ≤ port) (hhigh : port ≤ 65535) : keyOf L (some h) port = some (keyText h port) := by
  unfold keyOf
  dsimp only
  rw [hclean.trimmed, hlower, hdots, unbracketed_clean hclean, if_neg hne, if_neg]
  rw [not_or, not_or]
  exact ⟨hne, by omega, by omega⟩

theorem hostPart_clean {h : JavaString} (hne : h ≠ []) (hclean : Clean h) (port : ℤ) : hostPart (keyText h port) = h := by
  by_cases hcolon : colon ∈ h
  · rw [hostPart_v6 hcolon, List.takeWhile_eq_self_iff]
    intro c hc
    simpa using fun heq : c = rbracket => hclean.literal hcolon (heq ▸ hc)
  · exact hostPart_keyText hcolon hne (hclean.name hcolon) port

theorem portPart_clean {h : JavaString} (hne : h ≠ []) (hclean : Clean h) {port : ℤ} (hlow : 1 ≤ port)
    (hhigh : port ≤ 65535) : portPart (keyText h port) = port := by
  by_cases hcolon : colon ∈ h
  · exact portPart_v6 hcolon (hclean.literal hcolon) hlow hhigh
  · exact portPart_keyText hcolon hne (hclean.name hcolon) hlow hhigh

theorem hostOf_keyText {h : JavaString} (hne : h ≠ []) (port : ℤ) :
    hostOf (some (keyText h port)) = .ok (some (hostPart (keyText h port))) := by
  unfold hostOf
  dsimp only
  rw [if_neg (keyText_ne_nil hne port)]

theorem portOf_keyText {h : JavaString} (hne : h ≠ []) (port : ℤ) :
    portOf (some (keyText h port)) = .ok (portPart (keyText h port)) := by
  unfold portOf
  dsimp only
  rw [if_neg (keyText_ne_nil hne port)]

/-! ## Hosts that are not clean -/

theorem length_keyText_lt {h₁ h₂ : JavaString} (hlength : h₁.length < h₂.length) (hcolon : colon ∈ h₁ → colon ∈ h₂)
    (port : ℤ) : (keyText h₁ port).length < (keyText h₂ port).length := by
  unfold keyText
  by_cases h₁ : colon ∈ h₁
  · simp only [if_pos h₁, if_pos (hcolon h₁)]
    split_ifs <;> simp only [List.length_cons, List.length_append] <;> omega
  · simp only [if_neg h₁]
    split_ifs
    · simp only [List.length_cons, List.length_append]
      omega
    · exact hlength
    · simp only [List.length_cons, List.length_append]
      omega
    · simp only [List.length_cons, List.length_append]
      omega

theorem unbracketed_part (h : JavaString) : unbracketed h <:+: h := by
  unfold unbracketed
  split
  · exact (List.drop_suffix 1 _).isInfix.trans (List.take_prefix _ h).isInfix
  · exact List.infix_rfl

/-- a host with a blank at an end is looked up without it -/
theorem keyOf_shorter {h k H : JavaString} {port : ℤ} (hmade : h <:+: L.lower H) (htrim : trim h ≠ h)
    (hkey : keyOf L (some h) port = some k) : ∃ h', h' <:+: h ∧ h'.length < h.length ∧ k = keyText h' port := by
  unfold keyOf at hkey
  dsimp only at hkey
  rw [L.again H _ ((trim_part h).trans hmade)] at hkey
  split_ifs at hkey with hbad hempty
  have hinfix : unbracketed (trimDots (trim h)) <:+: trim h := (unbracketed_part _).trans (trimDots_part _)
  refine ⟨_, hinfix.trans (trim_part h), ?_, (Option.some.inj hkey).symm⟩
  exact lt_of_le_of_lt hinfix.length_le (length_trim_lt htrim)

theorem trimmed_of_fields {h H : JavaString} {port : ℤ} (hne : h ≠ []) (hmade : h <:+: L.lower H)
    (hhost : hostPart (keyText h port) = h) (hport : portPart (keyText h port) = port)
    (hfields : ∃ host port', hostOf (some (keyText h port)) = .ok host ∧ portOf (some (keyText h port)) = .ok port' ∧
      keyOf L host port' = some (keyText h port)) : trim h = h := by
  obtain ⟨host, port', hhostOf, hportOf, hkey⟩ := hfields
  rw [hostOf_keyText hne, hhost] at hhostOf
  rw [portOf_keyText hne, hport] at hportOf
  cases hhostOf
  cases hportOf
  by_contra htrim
  obtain ⟨h', hinfix, hlength, hsame⟩ := keyOf_shorter hmade htrim hkey
  have hlt := length_keyText_lt hlength (fun hcolon => hinfix.subset hcolon) port
  rw [← hsame] at hlt
  exact lt_irrefl _ hlt

theorem trim_cons {c : UInt16} {s : JavaString} (hc : ¬ c ≤ 0x20) : ∃ s', trim (c :: s) = c :: s' ∧ s' <:+: s := by
  have hdrop : (c :: s).dropWhile (fun d => d ≤ 0x20) = c :: s := List.dropWhile_cons_of_neg (by simpa using hc)
  obtain ⟨tail, htail⟩ : trim (c :: s) <+: c :: s := by
    unfold trim
    rw [hdrop]
    exact List.rdropWhile_prefix _ _
  cases htrim : trim (c :: s) with
  | nil => exact absurd htrim (trim_ne_nil List.mem_cons_self hc)
  | cons d s' =>
    rw [htrim, List.cons_append, List.cons.injEq] at htail
    obtain ⟨rfl, rfl⟩ := htail
    exact ⟨s', rfl, (List.prefix_append s' tail).isInfix⟩

/-- a text that begins with a bracket and has no closing one names nothing -/
theorem normalize_unclosed {k : JavaString} (hhead : k.head? = some lbracket) (hclose : rbracket ∉ k) :
    normalize L (some k) = none := by
  obtain ⟨s, rfl⟩ := List.head?_eq_some_iff.1 hhead
  obtain ⟨s', htrim, hsub⟩ := trim_cons (s := s) (by decide : ¬ lbracket ≤ 0x20)
  have hnone : indexOf rbracket (lbracket :: s') = none := by
    rw [indexOf_eq_none]
    intro hmem
    rcases List.mem_cons.1 hmem with heq | hmem
    · exact absurd heq (by decide)
    · exact hclose (List.mem_cons_of_mem _ (hsub.subset hmem))
  unfold normalize splitAddress
  dsimp only
  rw [htrim, if_neg (List.cons_ne_nil _ _), List.head?_cons, if_pos rfl, hnone]

theorem parsePort_bracket {text : JavaString} (h : rbracket ∈ text) : parsePort text = -1 := by
  have hall : text.all isDigit = false := by
    rw [List.all_eq_false]
    exact ⟨rbracket, h, by decide⟩
  unfold parsePort
  rw [if_pos hall, ite_self]

/-- a bracket inside an IPv6 literal ends it, and no port follows -/
theorem normalize_inner {h rest : JavaString} (hmem : rbracket ∈ h)
    (htrim : trim (lbracket :: (h ++ rbracket :: rest)) = lbracket :: (h ++ rbracket :: rest)) :
    normalize L (some (lbracket :: (h ++ rbracket :: rest))) = none := by
  obtain ⟨a, b, rfl, ha⟩ := List.eq_append_cons_of_mem hmem
  rw [List.append_assoc, List.cons_append] at htrim ⊢
  refine Option.eq_none_iff_forall_ne_some.2 ?_
  intro k hk
  obtain ⟨H, port, haddressed, -, -⟩ := normalize_iff.1 hk
  obtain ⟨p, hparts, hport⟩ := haddressed.parts
  have hvalid := haddressed.valid
  rw [htrim] at hparts
  have hindex := @indexOf_bracket a (b ++ rbracket :: rest) ha
  have hsplit := splitAddress_of_parts hparts
  unfold splitAddress at hsplit
  rw [List.head?_cons, if_pos rfl, hindex] at hsplit
  have hdrop : (lbracket :: (a ++ rbracket :: (b ++ rbracket :: rest))).drop (a.length + 1 + 1) = b ++ rbracket :: rest := by
    simp
  dsimp only at hsplit
  rw [hdrop] at hsplit
  cases b with
  | nil =>
    rw [List.nil_append] at hsplit
    dsimp only at hsplit
    rw [if_neg (by decide : rbracket ≠ colon)] at hsplit
    cases hsplit
  | cons c b =>
    rw [List.cons_append] at hsplit
    dsimp only at hsplit
    split_ifs at hsplit
    cases hsplit
    have hinner : portFrom (some (b ++ rbracket :: rest)) = -1 := by
      have hin : rbracket ∈ b ++ rbracket :: rest := by simp
      cases hlist : b ++ rbracket :: rest with
      | nil =>
        rw [hlist] at hin
        cases hin
      | cons d text =>
        rw [hlist] at hin
        exact parsePort_bracket hin
    omega

/-- a host whose key is canonical is clean -/
theorem clean_of_canonical {raw H : JavaString} {port : ℤ} (haddressed : Addressed raw H port) (hcanonical : Canonical L raw) :
    Clean (trimDots (L.lower H)) := by
  by_cases hne : trimDots (L.lower H) = []
  · rw [hne]
    exact { trimmed := rfl, literal := fun hcolon => absurd hcolon List.not_mem_nil, name := fun _ => by decide }
  · set h := trimDots (L.lower H) with hh
    have hkey : normalize L (some raw) = some (keyText h port) := normalize_iff.2 ⟨H, port, haddressed, hne, rfl⟩
    obtain ⟨p, hparts, hport⟩ := haddressed.parts
    have hrange := portFrom_range (hport ▸ haddressed.valid)
    rw [hport] at hrange
    have hmade : h <:+: L.lower H := trimDots_part _
    have hagain := hcanonical.again _ hkey
    have hopen : h.head? = some lbracket → rbracket ∉ h := haddressed.unclosed
    have hname : colon ∉ h → h.head? ≠ some lbracket := by
      intro hcolon hhead
      have hunclosed : normalize L (some (keyText h port)) = none := by
        unfold keyText
        rw [if_neg hcolon, if_neg hcolon]
        split_ifs
        · exact normalize_unclosed hhead (hopen hhead)
        · refine normalize_unclosed (by rw [head_append hne]; exact hhead) ?_
          intro hmem
          rcases List.mem_append.1 hmem with hmem | hmem
          · exact hopen hhead hmem
          · rcases List.mem_cons.1 hmem with heq | hmem
            · exact absurd heq (by decide)
            · exact absurd (decimal_digits hmem).2 (by decide)
      rw [hunclosed] at hagain
      cases hagain
    have hliteral : colon ∈ h → rbracket ∉ h := by
      intro hcolon hmem
      have hinner : normalize L (some (keyText h port)) = none := by
        unfold keyText
        rw [if_pos hcolon, if_pos hcolon]
        split_ifs
        · refine normalize_inner hmem (trim_eq_self_iff.2 ⟨?_, ?_⟩)
          · intro c hc
            cases hc
            decide
          · intro c hc
            rw [← List.cons_append, List.getLast?_concat] at hc
            cases hc
            decide
        · refine normalize_inner hmem (trim_eq_self_iff.2 ⟨?_, ?_⟩)
          · intro c hc
            cases hc
            decide
          · intro c hc
            have hsplit : lbracket :: (h ++ rbracket :: colon :: decimal port.toNat) =
                (lbracket :: (h ++ [rbracket, colon])) ++ decimal port.toNat := by simp
            rw [hsplit, getLast_append (decimal_ne_nil _)] at hc
            exact decimal_ends _ c hc
      rw [hinner] at hagain
      cases hagain
    refine { trimmed := ?_, literal := hliteral, name := hname }
    have hfields := hcanonical.fields _ hkey
    by_cases hcolon : colon ∈ h
    · refine trimmed_of_fields hne hmade ?_ (portPart_v6 hcolon (hliteral hcolon) hrange.1 hrange.2) hfields
      rw [hostPart_v6 hcolon, List.takeWhile_eq_self_iff]
      intro c hc
      simpa using fun heq : c = rbracket => hliteral hcolon (heq ▸ hc)
    · exact trimmed_of_fields hne hmade (hostPart_keyText hcolon hne (hname hcolon) port)
        (portPart_keyText hcolon hne (hname hcolon) hrange.1 hrange.2) hfields

/-! ## The resolver's host and port -/

/-- a blank at an end of a host is left at that end by lower case -/
theorem lower_cons {c : UInt16} (hc : c ≤ 0x20) (s : JavaString) : ∃ t, L.lower (c :: s) = c :: t := by
  have hlowers := L.lowers (c :: s)
  have hascii : c < 0x80 := UInt16.lt_of_le_of_lt hc (by decide : (0x20 : UInt16) < 0x80)
  generalize L.lower (c :: s) = t at hlowers
  cases hlowers with
  | @ascii _ _ t _ _ =>
    refine ⟨t, ?_⟩
    rw [asciiLower, if_neg]
    rintro ⟨hle, -⟩
    exact absurd (UInt16.le_trans hle hc) (by decide : ¬ (0x41 : UInt16) ≤ 0x20)
  | other hnot => exact absurd hascii hnot

theorem lowers_concat {c : UInt16} (hc : c ≤ 0x20) {s t : JavaString} (h : Lowers (s ++ [c]) t) : ∃ u, t = u ++ [c] := by
  have hascii : c < 0x80 := UInt16.lt_of_le_of_lt hc (by decide : (0x20 : UInt16) < 0x80)
  induction s generalizing t with
  | nil =>
    cases h with
    | ascii _ hrest =>
      cases hrest
      refine ⟨[], ?_⟩
      rw [asciiLower, if_neg, List.nil_append]
      rintro ⟨hle, -⟩
      exact absurd (UInt16.le_trans hle hc) (by decide : ¬ (0x41 : UInt16) ≤ 0x20)
    | other hnot => exact absurd hascii hnot
  | cons d s ih =>
    cases h with
    | ascii _ hrest =>
      obtain ⟨u, rfl⟩ := ih hrest
      exact ⟨_ :: u, rfl⟩
    | @other _ _ _ v _ _ _ hrest =>
      obtain ⟨u, rfl⟩ := ih hrest
      exact ⟨v ++ u, (List.append_assoc _ _ _).symm⟩

/-- a host whose key has no blank at its ends has none -/
theorem trim_host {H : JavaString} (h : trim (trimDots (L.lower H)) = trimDots (L.lower H)) : trim H = H := by
  obtain ⟨hhead, hlast⟩ := trim_eq_self_iff.1 h
  refine trim_eq_self_iff.2 ⟨?_, ?_⟩
  · intro c hc hblank
    obtain ⟨s, rfl⟩ := List.head?_eq_some_iff.1 hc
    obtain ⟨t, ht⟩ := lower_cons (L := L) hblank s
    rw [ht] at hhead
    have hdots : trimDots (c :: t) ≠ [] := by
      intro hnil
      have hdot := List.rdropWhile_eq_nil_iff.1 hnil c List.mem_cons_self
      rw [decide_eq_true_eq] at hdot
      rw [hdot] at hblank
      exact absurd hblank (by decide)
    obtain ⟨tail, htail⟩ : trimDots (c :: t) <+: c :: t := List.rdropWhile_prefix _ _
    refine hhead c ?_ hblank
    rw [← @head_append _ tail hdots, htail]
    rfl
  · intro c hc hblank
    obtain ⟨s, rfl⟩ := List.getLast?_eq_some_iff.1 hc
    obtain ⟨u, hu⟩ := lowers_concat hblank (L.lowers (s ++ [c]))
    have hkeep : trimDots (u ++ [c]) = u ++ [c] := by
      refine List.rdropWhile_concat_neg _ _ _ ?_
      rw [decide_eq_true_eq]
      rintro rfl
      exact absurd hblank (by decide)
    rw [hu, hkeep] at hlast
    exact hlast c (List.getLast?_concat ..) hblank

theorem keyOf_eq {host H : JavaString} {port : ℤ} (htrim : trim host = H) (hclean : Clean (trimDots (L.lower H)))
    (hlow : 1 ≤ port) (hhigh : port ≤ 65535) : keyOf L (some host) port =
      if trimDots (L.lower H) = [] then none else some (keyText (trimDots (L.lower H)) port) := by
  have hrange : ¬ (port < 1 ∨ 65535 < port) := by omega
  unfold keyOf
  dsimp only
  rw [htrim, unbracketed_clean hclean]
  by_cases hempty : H = []
  · have hlower : L.lower [] = [] := L.again [] [] List.nil_infix
    rw [hempty, hlower, if_pos (Or.inl rfl)]
    rfl
  · rw [if_neg]
    rw [not_or]
    exact ⟨hempty, hrange⟩

/-- the port of a typed address -/
structure PortText (p : JavaString) (port : ℤ) : Prop where
  read : portFrom (some p) = port
  free : colon ∉ p
  ends : p ≠ [] ∧ ∀ c, p.getLast? = some c → ¬ c ≤ 0x20

theorem portText {p : JavaString} {port : ℤ} (hdigits : p.all isDigit = true) (hlength : p.length ≤ 5)
    (hvalue : (digitsValue p : ℤ) = port) (hlow : 1 ≤ port) (hhigh : port ≤ 65535) : PortText p port := by
  have hne : p ≠ [] := by
    rintro rfl
    rw [← hvalue] at hlow
    exact absurd hlow (by decide)
  have hdigit : ∀ c ∈ p, isDigit c = true := List.all_eq_true.1 hdigits
  have hparse : parsePort p = port := by
    have hvalid : 1 ≤ digitsValue p ∧ digitsValue p ≤ 65535 := by omega
    unfold parsePort
    rw [if_neg, if_neg (by rw [hdigits]; decide), if_pos hvalid, hvalue]
    rw [not_or, not_lt]
    exact ⟨by simpa using hne, hlength⟩
  refine { read := ?_, free := ?_, ends := ⟨hne, ?_⟩ }
  · cases p with
    | nil => exact absurd rfl hne
    | cons c text => exact hparse
  · intro hmem
    exact absurd (hdigit _ hmem) (by decide)
  · intro c hc hblank
    have hd := hdigit c (List.mem_of_getLast? hc)
    simp only [isDigit, Bool.and_eq_true, decide_eq_true_eq] at hd
    exact absurd (UInt16.le_trans hd.1 hblank) (by decide : ¬ (0x30 : UInt16) ≤ 0x20)

/-- where the host of a typed address is, less the blanks before it -/
theorem addressed_typed {raw host : JavaString} {port : ℤ} (h : Typed raw host port) :
    ∃ H, Addressed raw H port ∧ trim H = trim host := by
  obtain ⟨p, hraw, hdigits, hlength, hvalue⟩ := h.text
  obtain ⟨hcolon, hopen, hclose⟩ := h.free
  have hport := portText hdigits hlength hvalue h.low h.high
  have hlow := h.low
  rcases hraw with rfl | rfl
  · refine ⟨host.dropWhile fun c => c ≤ 0x20, ⟨⟨some p, ?_, hport.read⟩, by omega⟩, ?_⟩
    · have hsub : (host.dropWhile fun c => c ≤ 0x20) <:+: host := (List.dropWhile_suffix _).isInfix
      have htrim : trim (host ++ colon :: p) = (host.dropWhile fun c => c ≤ 0x20) ++ colon :: p := by
        have hdrop : (host ++ colon :: p).dropWhile (fun c => c ≤ 0x20) =
            (host.dropWhile fun c => c ≤ 0x20) ++ colon :: p := by
          rw [List.dropWhile_append]
          split
          · next hempty =>
            rw [List.isEmpty_iff.1 hempty, List.nil_append]
            exact List.dropWhile_cons_of_neg (by decide)
          · rfl
        unfold trim
        rw [hdrop]
        refine List.rdropWhile_eq_self_iff.2 ?_
        intro hne
        have hlast := hport.ends.2 _ (List.getLast?_eq_some_getLast hport.ends.1)
        rw [List.getLast_append_of_ne_nil _ (List.cons_ne_nil colon p), List.getLast_cons hport.ends.1]
        simpa using hlast
      rw [htrim]
      refine .port ?_ (fun hmem => hcolon (hsub.subset hmem)) hport.free
      intro hhead
      rcases List.mem_append.1 (List.mem_of_head? hhead) with hmem | hmem
      · exact hopen (hsub.subset hmem)
      · rcases List.mem_cons.1 hmem with heq | hmem
        · exact absurd heq (by decide)
        · exact absurd (List.all_eq_true.1 hdigits _ hmem) (by decide)
    · unfold trim
      rw [List.dropWhile_idempotent]
  · refine ⟨host, ⟨⟨some p, ?_, hport.read⟩, by omega⟩, rfl⟩
    have htrim : trim (lbracket :: (host ++ rbracket :: colon :: p)) = lbracket :: (host ++ rbracket :: colon :: p) := by
      refine trim_eq_self_iff.2 ⟨?_, ?_⟩
      · intro c hc
        cases hc
        decide
      · intro c hc
        have hsplit : lbracket :: (host ++ rbracket :: colon :: p) = (lbracket :: (host ++ [rbracket, colon])) ++ p := by simp
        rw [hsplit, getLast_append hport.ends.1] at hc
        exact hport.ends.2 c hc
    rw [htrim]
    exact .bracketPort hclose

/-- **When a server key is canonical.** Exactly when the host of the address, in lower case and without the dots at its end,
is clean. -/
theorem canonical_iff (L : LowerCase) (raw : JavaString) :
    Canonical L raw ↔ ∀ H port, Addressed raw H port → Clean (trimDots (L.lower H)) := by
  constructor
  · exact fun h H port haddressed => clean_of_canonical haddressed h
  · intro h
    refine { again := ?_, fields := ?_, resolver := ?_ }
    · intro k hk
      obtain ⟨H, port, haddressed, hne, rfl⟩ := normalize_iff.1 hk
      obtain ⟨p, -, hport⟩ := haddressed.parts
      have hrange := portFrom_range (hport ▸ haddressed.valid)
      rw [hport] at hrange
      have hclean := h H port haddressed
      have hkey := normalize_eq (L := L) (addressed_keyText hne hclean hrange.1 hrange.2)
      rw [lower_host, trimDots_trimDots, if_neg hne] at hkey
      exact hkey
    · intro k hk
      obtain ⟨H, port, haddressed, hne, rfl⟩ := normalize_iff.1 hk
      obtain ⟨p, -, hport⟩ := haddressed.parts
      have hrange := portFrom_range (hport ▸ haddressed.valid)
      rw [hport] at hrange
      have hclean := h H port haddressed
      refine ⟨_, _, hostOf_keyText hne port, portOf_keyText hne port, ?_⟩
      rw [hostPart_clean hne hclean, portPart_clean hne hclean hrange.1 hrange.2]
      exact keyOf_clean hne hclean (lower_host H) (trimDots_trimDots _) hrange.1 hrange.2
    · intro host port htyped
      obtain ⟨H, haddressed, htrim⟩ := addressed_typed htyped
      have hclean := h H port haddressed
      have hhost := trim_host hclean.trimmed
      rw [normalize_eq haddressed]
      exact keyOf_eq (htrim.symm.trans hhost) hclean htyped.low htyped.high

theorem blank_before_port : ¬ ∀ (L : LowerCase) (raw : JavaString), Canonical L raw := by
  intro h
  have htyped : ∃ H port, Addressed (ofString "play.example.net :25566") H port ∧ ¬ Clean (trimDots (asciiCase.lower H)) := by
    refine ⟨ofString "play.example.net ", 25566, ⟨⟨some (ofString "25566"), ?_, by decide⟩, by decide⟩, ?_⟩
    · exact parts_of_splitAddress (by decide)
    · intro hclean
      exact absurd hclean.trimmed (by decide)
  obtain ⟨H, port, haddressed, hunclean⟩ := htyped
  exact hunclean ((canonical_iff asciiCase _).1 (h asciiCase _) H port haddressed)

end EspectralClient.RutaProtocol
