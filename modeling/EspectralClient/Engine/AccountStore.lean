/-
The account store over whole runs: which names it holds, which is active, and what each call leaves alone.

- `fromValue_toValue`: an account is read back as it was written, unknown fields included.
- `listAccounts_modify`: a section changes the stored list as its body says.
- `Sound`, `Kept`: what holds between two calls, and what one call may do.
- `Free`: a sign-in does not take a name that another stored account has.
- `accounts_kept`: over a run whose calls are all free, the store is sound in every state and every call is kept.
- `name_taken`: a sign-in under the name of an offline account leaves two accounts of that name, and the wrong one active.
-/
import EspectralClient.Engine.Accounts

namespace EspectralClient.Accounts

open Lib
open Modrinth (CodeErr)
open MsAuth (TokenKind)

/-! ## Written and read back -/

structure MicrosoftAuth.WellFormed (a : MicrosoftAuth) : Prop where
  extra : ∀ k ∈ microsoftKeys, a.extra.get? k = none
  finite : ∀ bits, a.expiresAt = some bits → isFinite bits

/-- what reading an entry yields: no field twice, numbers as JSON has them -/
structure Account.WellFormed (a : Account) : Prop where
  extra : ∀ k ∈ accountKeys, a.extra.get? k = none
  color : ∀ c, a.avatarColor = some c → c ≤ 2 ^ 63 - 1
  microsoft : ∀ m, a.microsoft = some m → m.WellFormed

theorem without_known (m : IndexMap String Json) (known : List String) :
    ∀ k ∈ known, (m.without known).get? k = none := by
  intro k hk
  rw [IndexMap.get?_without, if_pos hk]

theorem fromFields_wellFormed (m : IndexMap String Json) : (MicrosoftAuth.fromFields m).WellFormed := by
  refine ⟨without_known m _, ?_⟩
  intro bits h
  simp only [MicrosoftAuth.fromFields, Option.bind_eq_some_iff, asF64] at h
  obtain ⟨v, -, hv⟩ := h
  exact (Option.filter_eq_some_iff.1 hv).2

theorem jsonInteger_le {v : Json} {c : ℤ} (h : jsonInteger v = some c) : c ≤ 2 ^ 63 - 1 := by
  unfold jsonInteger at h
  split at h
  · simp only [Option.some.injEq] at h
    omega
  · simp only [Option.bind_eq_some_iff] at h
    obtain ⟨q, -, h⟩ := h
    split_ifs at h
    simp only [Option.some.injEq] at h
    omega
  · cases h

theorem fromValue_wellFormed {v : Json} {a : Account} (h : Account.fromValue v = some a) : a.WellFormed := by
  simp only [Account.fromValue, Option.bind_eq_some_iff, Option.map_eq_some_iff] at h
  obtain ⟨m, -, kind, -, microsoft, hms, rfl⟩ := h
  refine ⟨without_known m _, ?_, ?_⟩
  · intro c hc
    simp only [Option.bind_eq_some_iff] at hc
    obtain ⟨w, -, hw⟩ := hc
    exact jsonInteger_le hw
  · intro auth hauth
    simp only at hauth
    unfold readMicrosoft at hms
    split at hms
    · simp_all
    · simp_all
    · simp only [Option.map_eq_some_iff] at hms
      obtain ⟨fields, -, rfl⟩ := hms
      simp only [Option.some.injEq] at hauth
      subst hauth
      exact fromFields_wellFormed fields

theorem get?_put (m : IndexMap String Json) (k k' : String) (v : Option Json) :
    (put m k v).get? k' = if k = k' then v.or (m.get? k') else m.get? k' := by
  cases v with
  | none => simp [put]
  | some v => simp [put, IndexMap.get?_insert]

theorem mem_keys_put {m : IndexMap String Json} {k k' : String} {v : Option Json} (h : k' ∈ (put m k v).keys) :
    k = k' ∨ k' ∈ m.keys := by
  cases v with
  | none => exact Or.inr h
  | some v => exact IndexMap.mem_keys_insert.1 h

theorem fromFields_typed {a : MicrosoftAuth} (h : a.WellFormed) : MicrosoftAuth.fromFields (a.typed.merge a.extra) = a := by
  have hkeys : ∀ k ∈ a.typed.keys, k ∈ microsoftKeys := by
    intro k hk
    unfold MicrosoftAuth.typed at hk
    rcases mem_keys_put hk with rfl | hk
    · decide
    rcases mem_keys_put hk with rfl | hk
    · decide
    rcases mem_keys_put hk with rfl | hk
    · decide
    cases hk
  have hget : ∀ k ∈ microsoftKeys, (a.typed.merge a.extra).get? k = a.typed.get? k := by
    intro k hk
    rw [IndexMap.get?_merge, h.extra k hk, Option.none_or]
  obtain ⟨refreshToken, expiresAt, lunar, extra⟩ := a
  have hexp : ((expiresAt.map ofF64).or none).bind asF64 = expiresAt := by
    cases expiresAt with
    | none => rfl
    | some bits =>
      have := h.finite bits rfl
      simp [ofF64, this, asF64, bitsOf]
  simp only [MicrosoftAuth.fromFields, hget _ (show "refresh_token" ∈ microsoftKeys by decide),
    hget _ (show "expires_at" ∈ microsoftKeys by decide), hget _ (show "lunar" ∈ microsoftKeys by decide),
    IndexMap.without_merge hkeys h.extra]
  simp only [MicrosoftAuth.typed, get?_put, MicrosoftAuth.mk.injEq, and_true]
  refine ⟨?_, ?_, ?_⟩
  · cases refreshToken <;> simp [Json.asStr]
  · simpa using hexp
  · cases lunar <;> simp [Json.asBool]

theorem asObject_entries (m : IndexMap String Json) : (Json.obj m.entries).asObject = some m := by
  simp [Json.asObject]

theorem read_name (kind : TokenKind) : TokenKind.read (some (.str (TokenKind.name kind))) = some kind := by
  cases kind <;> decide

theorem readMicrosoft_toValue {microsoft : Option MicrosoftAuth} (h : ∀ m, microsoft = some m → m.WellFormed) :
    readMicrosoft (microsoft.map MicrosoftAuth.toValue) = some microsoft := by
  cases microsoft with
  | none => rfl
  | some m =>
    simp only [Option.map_some, MicrosoftAuth.toValue, readMicrosoft, asObject_entries, Option.map_some,
      fromFields_typed (h m rfl)]

theorem typed_keys (a : Account) : ∀ k ∈ a.typed.keys, k ∈ accountKeys := by
  intro k hk
  unfold Account.typed at hk
  rcases mem_keys_put hk with rfl | hk
  · decide
  rcases mem_keys_put hk with rfl | hk
  · decide
  rcases mem_keys_put hk with rfl | hk
  · decide
  rcases mem_keys_put hk with rfl | hk
  · decide
  rcases mem_keys_put hk with rfl | hk
  · decide
  rcases IndexMap.mem_keys_insert.1 hk with rfl | hk
  · decide
  rcases IndexMap.mem_keys_insert.1 hk with rfl | hk
  · decide
  rcases IndexMap.mem_keys_insert.1 hk with rfl | hk
  · decide
  rcases IndexMap.mem_keys_insert.1 hk with rfl | hk
  · decide
  cases hk

/-- **Round trip.** An account reads back as it was written. -/
theorem fromValue_toValue {a : Account} (h : a.WellFormed) : Account.fromValue a.toValue = some a := by
  have hget : ∀ k ∈ accountKeys, (a.typed.merge a.extra).get? k = a.typed.get? k := by
    intro k hk
    rw [IndexMap.get?_merge, h.extra k hk, Option.none_or]
  have hkind : a.typed.get? "token_kind" = some (.str (TokenKind.name a.tokenKind)) := by
    simp [Account.typed, get?_put, IndexMap.get?_insert]
  have hms : a.typed.get? "microsoft" = a.microsoft.map MicrosoftAuth.toValue := by
    simp [Account.typed, get?_put, IndexMap.get?_insert]
  have hcolor : (a.typed.get? "avatar_color").bind jsonInteger = a.avatarColor := by
    have hget : a.typed.get? "avatar_color" = some ((a.avatarColor.map .int).getD .null) := by
      simp [Account.typed, get?_put]
    rw [hget]
    cases hc : a.avatarColor with
    | none => rfl
    | some c => simpa [jsonInteger] using h.color c hc
  have hstr : ∀ (k : String) (v : Option String), a.typed.get? k = v.map .str → (a.typed.get? k).bind Json.asStr = v := by
    intro k v hk
    rw [hk]
    cases v <;> rfl
  have hname : (a.typed.get? "username").bind Json.asStr = some a.username :=
    hstr _ (some a.username) (by simp [Account.typed, get?_put, IndexMap.get?_insert])
  have huuid : (a.typed.get? "uuid").bind Json.asStr = some a.uuid :=
    hstr _ (some a.uuid) (by simp [Account.typed, get?_put, IndexMap.get?_insert])
  have hauto : (a.typed.get? "avatar_auto").bind Json.asBool = a.avatarAuto := by
    have hget : a.typed.get? "avatar_auto" = a.avatarAuto.map .bool := by
      simp [Account.typed, get?_put, IndexMap.get?_insert]
    rw [hget]
    cases a.avatarAuto <;> rfl
  have hcreated : (a.typed.get? "created_at").bind Json.asStr = a.createdAt :=
    hstr _ _ (by simp [Account.typed, get?_put, IndexMap.get?_insert])
  have hupdated : (a.typed.get? "updated_at").bind Json.asStr = a.updatedAt :=
    hstr _ _ (by simp [Account.typed, get?_put, IndexMap.get?_insert])
  have hlast : (a.typed.get? "last_used").bind Json.asStr = a.lastUsed :=
    hstr _ _ (by simp [Account.typed, get?_put, IndexMap.get?_insert])
  simp only [Account.fromValue, Account.toValue, asObject_entries, Option.bind_some]
  rw [hget "token_kind" (by decide), hget "microsoft" (by decide), hget "username" (by decide), hget "uuid" (by decide),
    hget "avatar_color" (by decide), hget "avatar_auto" (by decide), hget "created_at" (by decide),
    hget "updated_at" (by decide), hget "last_used" (by decide), hkind, hms, read_name, Option.bind_some,
    readMicrosoft_toValue h.microsoft, hname, huuid, hcolor, hauto, hcreated, hupdated, hlast,
    IndexMap.without_merge (typed_keys a) h.extra]
  rfl

/-! ## A section -/

theorem mem_listAccounts_wellFormed {doc : Doc} {a : Account} (h : a ∈ listAccounts doc) : a.WellFormed := by
  unfold listAccounts at h
  split at h
  · obtain ⟨v, -, hv⟩ := List.mem_filterMap.1 h
    exact fromValue_wellFormed hv
  · cases h

theorem filterMap_toValue {accounts : List Account} (h : ∀ a ∈ accounts, a.WellFormed) :
    (accounts.map Account.toValue).filterMap Account.fromValue = accounts := by
  induction accounts with
  | nil => rfl
  | cons a rest ih =>
    rw [List.map_cons, List.filterMap_cons_some (fromValue_toValue (h a List.mem_cons_self)),
      ih fun b hb => h b (List.mem_cons_of_mem a hb)]

section Modify

variable {ρ : Type} {doc : Doc} {f : List Account → Doc → List Account × Doc × ρ}

/-- a section leaves the list its body makes -/
theorem listAccounts_modify (h : ∀ a ∈ (f (listAccounts doc) doc).1, a.WellFormed) :
    listAccounts (modifyAccounts doc f).1 = (f (listAccounts doc) doc).1 := by
  simp only [modifyAccounts, listAccounts, IndexMap.get?_insert_self]
  exact filterMap_toValue h

theorem active_modify : (modifyAccounts doc f).1.get? "active_username" =
    (f (listAccounts doc) doc).2.1.get? "active_username" := by
  simp only [modifyAccounts]
  exact IndexMap.get?_insert_ne _ _ (by decide)

end Modify

/-! ## Lists of accounts -/

/-- no name and no sign-in twice, and no unknown field -/
structure Distinct (accounts : List Account) : Prop where
  names : accounts.Pairwise fun a b => a.username ≠ b.username
  signIns : accounts.Pairwise fun a b => a.tokenKind = .msa → b.tokenKind = .msa → a.uuid ≠ b.uuid
  known : ∀ a ∈ accounts, a.extra = .empty ∧ ∀ m, a.microsoft = some m → m.extra = .empty

theorem distinct_nil : Distinct [] := ⟨List.Pairwise.nil, List.Pairwise.nil, fun _ h => by cases h⟩

theorem find?_named {accounts : List Account} (h : Distinct accounts) {a : Account} (ha : a ∈ accounts) :
    accounts.find? (isNamed a.username) = some a := by
  obtain ⟨p, q, rfl⟩ := List.append_of_mem ha
  have hp : ∀ b ∈ p, ¬ isNamed a.username b := by
    intro b hb
    simpa [isNamed] using (List.pairwise_append.1 h.names).2.2 b hb a List.mem_cons_self
  rw [List.find?_append, List.find?_eq_none.2 hp, Option.none_or,
    List.find?_cons_of_pos (by simp [isNamed])]

theorem distinct_append {accounts : List Account} (h : Distinct accounts) {a : Account}
    (hname : ∀ b ∈ accounts, b.username ≠ a.username)
    (hsign : a.tokenKind = .msa → ∀ b ∈ accounts, b.tokenKind = .msa → b.uuid ≠ a.uuid)
    (hknown : a.extra = .empty ∧ ∀ m, a.microsoft = some m → m.extra = .empty) : Distinct (accounts ++ [a]) := by
  refine ⟨?_, ?_, ?_⟩
  · apply List.pairwise_append.2 ⟨h.names, List.pairwise_singleton _ _, ?_⟩
    simpa using hname
  · apply List.pairwise_append.2 ⟨h.signIns, List.pairwise_singleton _ _, ?_⟩
    intro b hb c hc hbm hcm
    rw [List.mem_singleton.1 hc] at hcm ⊢
    exact hsign hcm b hb hbm
  · intro b hb
    rcases List.mem_append.1 hb with hb | hb
    · exact h.known b hb
    · rw [List.mem_singleton.1 hb]
      exact hknown

/-- one account put in the place of another -/
theorem distinct_replace {p q : List Account} {x a : Account} (h : Distinct (p ++ x :: q))
    (hname : ∀ b ∈ p ++ q, b.username ≠ a.username)
    (hsign : a.tokenKind = .msa → ∀ b ∈ p ++ q, b.tokenKind = .msa → b.uuid ≠ a.uuid)
    (hknown : a.extra = .empty ∧ ∀ m, a.microsoft = some m → m.extra = .empty) : Distinct (p ++ a :: q) := by
  have hsub : (p ++ q).Sublist (p ++ x :: q) := (List.Sublist.refl p).append (List.sublist_cons_self x q)
  obtain ⟨hn, hs⟩ := And.intro (h.names.sublist hsub) (h.signIns.sublist hsub)
  rw [List.pairwise_append] at hn hs
  refine ⟨?_, ?_, ?_⟩
  · rw [List.pairwise_append, List.pairwise_cons]
    refine ⟨hn.1, ⟨fun b hb => (hname b (List.mem_append_right p hb)).symm, hn.2.1⟩, ?_⟩
    intro b hb c hc
    rcases List.mem_cons.1 hc with rfl | hc
    · exact hname b (List.mem_append_left q hb)
    · exact hn.2.2 b hb c hc
  · rw [List.pairwise_append, List.pairwise_cons]
    refine ⟨hs.1, ⟨fun b hb ham hbm => (hsign ham b (List.mem_append_right p hb) hbm).symm, hs.2.1⟩, ?_⟩
    intro b hb c hc hbm hcm
    rcases List.mem_cons.1 hc with rfl | hc
    · exact hsign hcm b (List.mem_append_left q hb) hbm
    · exact hs.2.2 b hb c hc hbm hcm
  · intro b hb
    rcases List.mem_append.1 hb with hb | hb
    · exact h.known b (List.mem_append_left _ hb)
    · rcases List.mem_cons.1 hb with rfl | hb
      · exact hknown
      · exact h.known b (List.mem_append_right p (List.mem_cons_of_mem x hb))

theorem distinct_sublist {accounts accounts' : List Account} (h : Distinct accounts)
    (hsub : accounts'.Sublist accounts) : Distinct accounts' :=
  ⟨h.names.sublist hsub, h.signIns.sublist hsub, fun a ha => h.known a (hsub.subset ha)⟩

/-- the others of a list with distinct names -/
theorem names_ne {p q : List Account} {x : Account} (h : Distinct (p ++ x :: q)) :
    ∀ b ∈ p ++ q, b.username ≠ x.username := by
  have hn := h.names
  rw [List.pairwise_append, List.pairwise_cons] at hn
  intro b hb
  rcases List.mem_append.1 hb with hb | hb
  · exact hn.2.2 b hb x List.mem_cons_self
  · exact (hn.2.1.1 b hb).symm

theorem signIns_ne {p q : List Account} {x : Account} (h : Distinct (p ++ x :: q)) (hx : x.tokenKind = .msa) :
    ∀ b ∈ p ++ q, b.tokenKind = .msa → b.uuid ≠ x.uuid := by
  have hs := h.signIns
  rw [List.pairwise_append, List.pairwise_cons] at hs
  intro b hb hbm
  rcases List.mem_append.1 hb with hb | hb
  · exact hs.2.2 b hb x List.mem_cons_self hbm hx
  · exact (hs.2.1.1 b hb hx hbm).symm

/-! ## Calls -/

/-- the stored accounts a call is about -/
def about (c : Call) (a : Account) : Bool :=
  match c.op with
  | .create username => isNamed username a
  | .upsertMsa ms => isSignIn ms.uuid a
  | .upsertLunar _ uuid _ => isSignIn uuid a
  | .delete username => isNamed username a
  | .deleteMsa username => isRemoved username true a
  | .setActive username => isNamed username a
  | .setColor username _ => isNamed username a

def unknownMicrosoft (a : Account) : IndexMap String Json := (a.microsoft.map MicrosoftAuth.extra).getD .empty

/-- no name twice, and the active one is stored -/
structure Sound (doc : Doc) : Prop where
  names : ((listAccounts doc).map Account.username).Nodup
  active : doc.get? "active_username" = none ∨ doc.get? "active_username" = some .null ∨
    ∃ a ∈ listAccounts doc, doc.get? "active_username" = some (.str a.username)

/-- what one call may do -/
structure Kept (ext : Ext) (doc : Doc) (c : Call) : Prop where
  current : ∀ a, (call ext doc c).2 = .account a → getActiveAccount (step ext doc c) = some a
  named : ∀ username, (call ext doc c).2 = .active username → ∃ a ∈ listAccounts doc, a.username = username ∧
    getActiveAccount (step ext doc c) = some { a with lastUsed := some c.env.nowIso }
  others : (listAccounts (step ext doc c)).filter (fun a => !about c a) = (listAccounts doc).filter fun a => !about c a
  unknown : ∀ b, (call ext doc c).2 = .account b → ∀ a ∈ listAccounts doc, about c a →
    b.extra = a.extra ∧ unknownMicrosoft b = unknownMicrosoft a
  refused : ∀ e, (call ext doc c).2 = .failed e → listAccounts (step ext doc c) = listAccounts doc ∧
    (step ext doc c).get? "active_username" = doc.get? "active_username"

/-- A sign-in whose name no other account has, with an expiry that is a number; every other call. -/
def Free (ext : Ext) (doc : Doc) (c : Call) : Prop :=
  match c.op with
  | .upsertMsa ms => (∀ a ∈ listAccounts doc, a.username = ms.username → isSignIn ms.uuid a) ∧
      isFinite (ext.expiry c.env.nowMs ms.expiresIn)
  | .upsertLunar username uuid _ => ∀ a ∈ listAccounts doc, a.username = username → isSignIn uuid a
  | _ => True

instance (ext : Ext) (doc : Doc) : (c : Call) → Decidable (Free ext doc c)
  | ⟨.upsertMsa _, _⟩ => inferInstanceAs (Decidable (_ ∧ _))
  | ⟨.upsertLunar .., _⟩ => inferInstanceAs (Decidable (∀ a ∈ _, _ → _))
  | ⟨.create _, _⟩ => isTrue trivial
  | ⟨.delete _, _⟩ => isTrue trivial
  | ⟨.deleteMsa _, _⟩ => isTrue trivial
  | ⟨.setActive _, _⟩ => isTrue trivial
  | ⟨.setColor .., _⟩ => isTrue trivial

structure Inv (doc : Doc) : Prop where
  distinct : Distinct (listAccounts doc)
  active : doc.get? "active_username" = none ∨ doc.get? "active_username" = some .null ∨
    ∃ a ∈ listAccounts doc, doc.get? "active_username" = some (.str a.username)

theorem Inv.sound {doc : Doc} (h : Inv doc) : Sound doc := ⟨List.pairwise_map.2 h.distinct.names, h.active⟩

/-- the section of a call, once its list and the active name are known -/
structure Outcome (doc' : Doc) (accounts : List Account) (active : Option Json) : Prop where
  list : listAccounts doc' = accounts
  active : doc'.get? "active_username" = active

/-- what is active once a stored account's name is -/
theorem Outcome.getActive {doc' : Doc} {accounts : List Account} {a : Account}
    (h : Outcome doc' accounts (some (.str a.username))) (hd : Distinct accounts) (ha : a ∈ accounts) :
    getActiveAccount doc' = some a := by
  simp only [getActiveAccount, activeUsername, h.active, Option.bind_some, Json.asStr, getAccount, h.list]
  exact find?_named hd ha

theorem hue_le (accounts : List Account) (draws : ℕ → Fin 360) : pickAvatarColor accounts draws ≤ 359 := by
  have hdraw : ∀ i, ((draws i).val : ℤ) ≤ 359 := fun i => by omega
  have hfound : ∀ good : ℤ → Bool,
      (((List.range 50).map fun i => ((draws i).val : ℤ)).find? good).getD (draws 50).val ≤ 359 := by
    intro good
    cases hf : ((List.range 50).map fun i => ((draws i).val : ℤ)).find? good with
    | none => exact hdraw 50
    | some v =>
      obtain ⟨i, -, rfl⟩ := List.mem_map.1 (List.mem_of_find?_eq_some hf)
      exact hdraw i
  exact hfound _

section Calls

variable {ext : Ext} {doc : Doc} {c : Call} {accounts : List Account}

theorem refused_kept (h : Inv doc) {e : CodeErr} (hc : (call ext doc c).2 = .failed e)
    (ho : Outcome (step ext doc c) (listAccounts doc) (doc.get? "active_username")) :
    Inv (step ext doc c) ∧ Kept ext doc c := by
  have hsame := ho.list
  have hactive := ho.active
  refine ⟨⟨by rw [hsame]; exact h.distinct, by rw [hsame, hactive]; exact h.active⟩, ?_, ?_, by rw [hsame], ?_, ?_⟩
  · intro a ha
    rw [hc] at ha
    cases ha
  · intro username hu
    rw [hc] at hu
    cases hu
  · intro b hb
    rw [hc] at hb
    cases hb
  · intro e' _
    exact ⟨hsame, hactive⟩

/-- a call that answers with the account it has stored and made active -/
theorem account_kept {a : Account} (hc : (call ext doc c).2 = .account a)
    (ho : Outcome (step ext doc c) accounts (some (.str a.username))) (hd : Distinct accounts) (ha : a ∈ accounts)
    (hothers : accounts.filter (fun a => !about c a) = (listAccounts doc).filter fun a => !about c a)
    (hknown : ∀ b ∈ listAccounts doc, b.extra = .empty ∧ ∀ m, b.microsoft = some m → m.extra = .empty) :
    Inv (step ext doc c) ∧ Kept ext doc c := by
  have hplain : ∀ b : Account, (b.extra = .empty ∧ ∀ m, b.microsoft = some m → m.extra = .empty) →
      b.extra = .empty ∧ unknownMicrosoft b = .empty := by
    intro b hb
    refine ⟨hb.1, ?_⟩
    unfold unknownMicrosoft
    cases hm : b.microsoft with
    | none => rfl
    | some m => exact hb.2 m hm
  refine ⟨⟨by rw [ho.list]; exact hd, ?_⟩, ?_, ?_, by rw [ho.list, hothers], ?_, ?_⟩
  · rw [ho.list, ho.active]
    exact Or.inr (Or.inr ⟨a, ha, rfl⟩)
  · intro b hb
    rw [hc] at hb
    cases hb
    exact ho.getActive hd ha
  · intro username hu
    rw [hc] at hu
    cases hu
  · intro b hb d hd' _
    rw [hc] at hb
    cases hb
    have h1 := hplain a (hd.known a ha)
    have h2 := hplain d (hknown d hd')
    exact ⟨h1.1.trans h2.1.symm, h1.2.trans h2.2.symm⟩
  · intro e he
    rw [hc] at he
    cases he

theorem create_kept (h : Inv doc) (username : String) (env : Env) :
    Inv (step ext doc ⟨.create username, env⟩) ∧ Kept ext doc ⟨.create username, env⟩ := by
  by_cases hvalid : isValidUsername username
  case neg =>
    have hcreate : createAccount ext env doc username = (doc, .error invalidUsername) := by
      simp [createAccount, hvalid]
    have hcall : call ext doc ⟨.create username, env⟩ = (doc, .failed invalidUsername) := by
      simp only [call, hcreate]
      rfl
    exact refused_kept h (by rw [hcall]) (by rw [step, hcall]; exact ⟨rfl, rfl⟩)
  by_cases hany : (listAccounts doc).any (isNamed username)
  case pos =>
    have hanswer : (call ext doc ⟨.create username, env⟩).2 = .failed (alreadyExists username) := by
      simp [call, createAccount, hvalid, modifyAccounts, hany, Answer.of]
    apply refused_kept h hanswer
    simp only [step, call, createAccount, hvalid, Bool.not_true, Bool.false_eq_true, if_false, Prod.map_fst, id_eq]
    constructor
    · rw [listAccounts_modify] <;> simp only [hany, if_true]
      exact fun a => mem_listAccounts_wellFormed
    · rw [active_modify]
      simp only [hany, if_true]
  case neg =>
    have hfree : ∀ b ∈ listAccounts doc, b.username ≠ username := by
      intro b hb heq
      exact hany (List.any_eq_true.2 ⟨b, hb, by simp [isNamed, heq]⟩)
    have hwf : ∀ a ∈ listAccounts doc ++ [newAccount ext env (listAccounts doc) username], a.WellFormed := by
      intro a ha
      rcases List.mem_append.1 ha with ha | ha
      · exact mem_listAccounts_wellFormed ha
      · rw [List.mem_singleton.1 ha]
        refine ⟨fun _ _ => rfl, ?_, fun m hm => by cases hm⟩
        intro c hc
        cases hc
        exact (hue_le _ _).trans (by decide)
    have hanswer : (call ext doc ⟨.create username, env⟩).2 = .account (newAccount ext env (listAccounts doc) username) := by
      simp [call, createAccount, hvalid, modifyAccounts, hany, Answer.of]
    have houtcome : Outcome (step ext doc ⟨.create username, env⟩)
        (listAccounts doc ++ [newAccount ext env (listAccounts doc) username]) (some (.str username)) := by
      simp only [step, call, createAccount, hvalid, Bool.not_true, Bool.false_eq_true, if_false, Prod.map_fst, id_eq]
      constructor
      · rw [listAccounts_modify] <;> simp only [hany, Bool.false_eq_true, if_false]
        exact hwf
      · rw [active_modify]
        simp only [hany, Bool.false_eq_true, if_false, setActiveUsername, IndexMap.get?_insert_self]
    apply account_kept hanswer houtcome
    · exact distinct_append h.distinct hfree (fun hm => by cases hm) ⟨rfl, fun m hm => by cases hm⟩
    · exact List.mem_append_right _ (List.mem_singleton_self _)
    · rw [List.filter_append, List.filter_cons_of_neg (by simp [about, isNamed, newAccount]), List.filter_nil,
        List.append_nil]
    · exact h.distinct.known

/-- a list split at the first account of a kind -/
theorem split_findIdx? {p : Account → Bool} {i : ℕ} (h : accounts.findIdx? p = some i) :
    ∃ front x back, accounts = front ++ x :: back ∧ i = front.length ∧ p x ∧ ∀ y ∈ front, ¬ p y := by
  induction accounts generalizing i with
  | nil => cases h
  | cons a rest ih =>
    rw [List.findIdx?_cons] at h
    by_cases ha : p a
    · simp only [ha, if_true, Option.some.injEq] at h
      exact ⟨[], a, rest, rfl, h.symm, ha, by simp⟩
    · simp only [ha, Bool.false_eq_true, if_false, Option.map_eq_some_iff] at h
      obtain ⟨j, hj, rfl⟩ := h
      obtain ⟨front, x, back, rfl, rfl, hx, hfront⟩ := ih hj
      refine ⟨a :: front, x, back, rfl, rfl, hx, ?_⟩
      intro y hy
      rcases List.mem_cons.1 hy with rfl | hy
      · exact ha
      · exact hfront y hy

theorem signedIn_wellFormed (env : Env) (username uuid : String) {microsoft : MicrosoftAuth} (prev : Option Account)
    (h : microsoft.WellFormed) : (signedIn env accounts username uuid microsoft prev).WellFormed := by
  refine ⟨fun _ _ => rfl, ?_, ?_⟩
  · intro c hc
    simp only [signedIn, Option.some.injEq] at hc
    subst hc
    cases hp : (prev.bind Account.avatarColor).filter isValidAvatarColor with
    | none => exact (hue_le _ _).trans (by decide)
    | some v =>
      have hv := (Option.filter_eq_some_iff.1 hp).2
      simp only [isValidAvatarColor, Bool.and_eq_true, decide_eq_true_eq] at hv
      simp only [Option.getD_some]
      omega
  · intro m hm
    simp only [signedIn, Option.some.injEq] at hm
    rwa [← hm]

/-- a sign-in whose name is free, or taken by the entry it replaces -/
theorem upsert_kept (h : Inv doc) {username uuid : String} (microsoft : MicrosoftAuth)
    (hcall : call ext doc c = (upsertOnline c.env doc username uuid microsoft).map id .account)
    (habout : about c = isSignIn uuid) (hfree : ∀ a ∈ listAccounts doc, a.username = username → isSignIn uuid a)
    (hms : microsoft.WellFormed) (hextra : microsoft.extra = .empty) :
    Inv (step ext doc c) ∧ Kept ext doc c := by
  have hsame : ∀ a : Account, isSignIn uuid a ↔ a.tokenKind = .msa ∧ a.uuid = uuid := by
    intro a
    simp [isSignIn]
  cases hidx : (listAccounts doc).findIdx? (isSignIn uuid) with
  | none =>
    have hnone : ∀ b ∈ listAccounts doc, ¬ isSignIn uuid b := by
      intro b hb
      simpa using List.findIdx?_eq_none_iff.1 hidx b hb
    have hanswer : (call ext doc c).2 = .account (signedIn c.env (listAccounts doc) username uuid microsoft none) := by
      rw [hcall]
      simp [upsertOnline, modifyAccounts, hidx]
    have houtcome : Outcome (step ext doc c)
        (listAccounts doc ++ [signedIn c.env (listAccounts doc) username uuid microsoft none]) (some (.str username)) := by
      rw [step, hcall, Prod.map_fst, id_eq]
      unfold upsertOnline
      constructor
      · rw [listAccounts_modify] <;> simp only [hidx, Option.bind_none]
        intro a ha
        rcases List.mem_append.1 ha with ha | ha
        · exact mem_listAccounts_wellFormed ha
        · rw [List.mem_singleton.1 ha]
          exact signedIn_wellFormed c.env username uuid none hms
      · rw [active_modify]
        simp only [hidx, setActiveUsername, IndexMap.get?_insert_self, Option.bind_none, signedIn]
    refine account_kept hanswer houtcome ?_ ?_ ?_ h.distinct.known
    · apply distinct_append h.distinct
      · intro b hb heq
        exact hnone b hb (hfree b hb heq)
      · intro _ b hb hbm heq
        exact hnone b hb ((hsame b).2 ⟨hbm, heq⟩)
      · refine ⟨rfl, ?_⟩
        intro m hm
        simp only [signedIn, Option.some.injEq] at hm
        rw [← hm, hextra]
    · exact List.mem_append_right _ (List.mem_singleton_self _)
    · rw [List.filter_append, List.filter_cons_of_neg (by simp [habout, isSignIn, signedIn]), List.filter_nil,
        List.append_nil]
  | some i =>
    obtain ⟨front, x, back, hlist, rfl, hx, -⟩ := split_findIdx? hidx
    have hget : (listAccounts doc)[front.length]? = some x := by rw [hlist]; simp
    have hset : ∀ a : Account, (listAccounts doc).set front.length a = front ++ a :: back := by
      intro a
      rw [hlist]
      simp
    have hdistinct := h.distinct
    rw [hlist] at hdistinct
    obtain ⟨hxm, hxu⟩ := (hsame x).1 hx
    have hanswer : (call ext doc c).2 =
        .account (signedIn c.env (listAccounts doc) username uuid microsoft (some x)) := by
      rw [hcall]
      simp [upsertOnline, modifyAccounts, hidx, hget]
    have houtcome : Outcome (step ext doc c)
        (front ++ signedIn c.env (listAccounts doc) username uuid microsoft (some x) :: back) (some (.str username)) := by
      rw [step, hcall, Prod.map_fst, id_eq]
      unfold upsertOnline
      constructor
      · rw [listAccounts_modify] <;> simp only [hidx, Option.bind_some, hget, hset]
        intro a ha
        rcases List.mem_append.1 ha with ha | ha
        · exact mem_listAccounts_wellFormed (by rw [hlist]; exact List.mem_append_left _ ha)
        · rcases List.mem_cons.1 ha with rfl | ha
          · exact signedIn_wellFormed c.env username uuid (some x) hms
          · exact mem_listAccounts_wellFormed (by rw [hlist]; exact List.mem_append_right _ (List.mem_cons_of_mem x ha))
      · rw [active_modify]
        simp only [hidx, setActiveUsername, IndexMap.get?_insert_self, Option.bind_some, hget, signedIn]
    refine account_kept hanswer houtcome ?_ ?_ ?_ h.distinct.known
    · have hother : ∀ b ∈ front ++ back, ¬ isSignIn uuid b := by
        intro b hb hsign
        obtain ⟨hbm, hbu⟩ := (hsame b).1 hsign
        exact signIns_ne hdistinct hxm b hb hbm (hbu.trans hxu.symm)
      have hmem : ∀ b ∈ front ++ back, b ∈ listAccounts doc := by
        intro b hb
        rw [hlist]
        rcases List.mem_append.1 hb with hb | hb
        · exact List.mem_append_left _ hb
        · exact List.mem_append_right _ (List.mem_cons_of_mem x hb)
      apply distinct_replace hdistinct
      · intro b hb heq
        exact hother b hb (hfree b (hmem b hb) heq)
      · intro _ b hb hbm heq
        exact hother b hb ((hsame b).2 ⟨hbm, heq⟩)
      · refine ⟨rfl, ?_⟩
        intro m hm
        simp only [signedIn, Option.some.injEq] at hm
        rw [← hm, hextra]
    · exact List.mem_append_right _ List.mem_cons_self
    · rw [hlist, List.filter_append, List.filter_append, List.filter_cons_of_neg (by simp [habout, isSignIn, signedIn]),
        List.filter_cons_of_neg (by simp [habout, hx])]

theorem remove_kept (h : Inv doc) (username : String) (msaOnly : Bool)
    (hcall : call ext doc c = (removeAccountWhere doc username msaOnly).map id (.of .deleted))
    (habout : about c = isRemoved username msaOnly) : Inv (step ext doc c) ∧ Kept ext doc c := by
  by_cases hany : (listAccounts doc).any (isRemoved username msaOnly)
  case neg =>
    have hanswer : (call ext doc c).2 = .failed (if msaOnly then
          ⟨404, "NOT_FOUND", "Microsoft account '" ++ username ++ "' does not exist"⟩ else notFound username) := by
      rw [hcall]
      simp [removeAccountWhere, modifyAccounts, hany, Answer.of]
    apply refused_kept h hanswer
    rw [step, hcall, Prod.map_fst, id_eq]
    unfold removeAccountWhere
    constructor
    · rw [listAccounts_modify] <;> simp only [hany, Bool.false_eq_true, if_false]
      exact fun a => mem_listAccounts_wellFormed
    · rw [active_modify]
      simp only [hany, Bool.false_eq_true, if_false]
  case pos =>
    obtain ⟨x, hx, hpx⟩ := List.any_eq_true.1 hany
    obtain ⟨y, front, back, hfront, hy, hlist, herase⟩ := List.exists_of_eraseP hx hpx
    have hname : y.username = username := by
      simp only [isRemoved, isNamed, Bool.and_eq_true, decide_eq_true_eq] at hy
      exact hy.1
    have hdistinct := h.distinct
    rw [hlist] at hdistinct
    have hrest := distinct_sublist hdistinct ((List.Sublist.refl front).append (List.sublist_cons_self y back))
    have hstored : listAccounts (removeAccountWhere doc username msaOnly).1 = front ++ back := by
      unfold removeAccountWhere
      rw [listAccounts_modify] <;> simp only [hany, if_true]
      · exact herase
      · intro a ha
        exact mem_listAccounts_wellFormed (List.mem_of_mem_eraseP ha)
    have hactive : (removeAccountWhere doc username msaOnly).1.get? "active_username" =
        if activeUsername doc = some username then some .null else doc.get? "active_username" := by
      unfold removeAccountWhere
      rw [active_modify]
      simp only [hany, if_true]
      split_ifs
      · exact IndexMap.get?_insert_self _ _ _
      · rfl
    have hanswer : (call ext doc c).2 = .deleted username := by
      rw [hcall]
      simp [removeAccountWhere, modifyAccounts, hany, Answer.of]
    have hstep : step ext doc c = (removeAccountWhere doc username msaOnly).1 := by rw [step, hcall]; rfl
    refine ⟨⟨by rw [hstep, hstored]; exact hrest, ?_⟩, ?_, ?_, ?_, ?_, ?_⟩
    · rw [hstep, hactive, hstored]
      split_ifs with hwas
      · exact Or.inr (Or.inl rfl)
      · rcases h.active with hnone | hnull | ⟨a, ha, hact⟩
        · exact Or.inl hnone
        · exact Or.inr (Or.inl hnull)
        · refine Or.inr (Or.inr ⟨a, ?_, hact⟩)
          rw [hlist] at ha
          have hne : a ≠ y := by
            rintro rfl
            exact hwas (by rw [activeUsername, hact, ← hname]; rfl)
          rcases List.mem_append.1 ha with ha | ha
          · exact List.mem_append_left _ ha
          · rcases List.mem_cons.1 ha with rfl | ha
            · exact absurd rfl hne
            · exact List.mem_append_right _ ha
    · intro a ha
      rw [hanswer] at ha
      cases ha
    · intro u hu
      rw [hanswer] at hu
      cases hu
    · rw [hstep, hstored, hlist, List.filter_append, List.filter_append, List.filter_cons_of_neg (by simp [habout, hy])]
    · intro b hb
      rw [hanswer] at hb
      cases hb
    · intro e he
      rw [hanswer] at he
      cases he

/-- a change that leaves the name and the sign-in alone -/
structure KeepsIdentity (change : Account → Account) : Prop where
  same : ∀ a, (change a).username = a.username ∧ (change a).uuid = a.uuid ∧ (change a).tokenKind = a.tokenKind ∧
    (change a).extra = a.extra ∧ (change a).microsoft = a.microsoft
  wellFormed : ∀ a : Account, a.WellFormed → (change a).WellFormed

/-- the first account of a kind, changed in place -/
theorem modify_first {p : Account → Bool} {a : Account} (change : Account → Account) (h : accounts.find? p = some a) :
    ∃ front back, accounts = front ++ a :: back ∧
      accounts.modify (accounts.findIdx p) change = front ++ change a :: back := by
  induction accounts with
  | nil => cases h
  | cons b rest ih =>
    cases hb : p b with
    | true =>
      rw [List.find?_cons_of_pos hb, Option.some.injEq] at h
      subst h
      exact ⟨[], rest, rfl, by simp [List.findIdx_cons, hb]⟩
    | false =>
      rw [List.find?_cons_of_neg (by simp [hb])] at h
      obtain ⟨front, back, hlist, hmodify⟩ := ih h
      refine ⟨b :: front, back, by rw [hlist]; rfl, ?_⟩
      simp only [List.findIdx_cons, hb, cond_false, List.modify_succ_cons, hmodify, List.cons_append]

/-- what is stored after the account of a name was changed in place -/
theorem updateNamed_spec (h : Inv doc) {ρ : Type} (username : String) {change : Account → Account} (after : Doc → Doc)
    (answer : Account → ρ) (hchange : KeepsIdentity change) :
    (∃ a ∈ listAccounts doc, ∃ accounts, a.username = username ∧
        (updateNamed doc username change after answer).2 = .ok (answer (change a)) ∧
        Outcome (updateNamed doc username change after answer).1 accounts ((after doc).get? "active_username") ∧
        Distinct accounts ∧ change a ∈ accounts ∧
        accounts.filter (fun a => !isNamed username a) = (listAccounts doc).filter (fun a => !isNamed username a) ∧
        accounts.map Account.username = (listAccounts doc).map Account.username) ∨
      (updateNamed doc username change after answer).2 = .error (notFound username) ∧
        Outcome (updateNamed doc username change after answer).1 (listAccounts doc) (doc.get? "active_username") := by
  cases hfind : (listAccounts doc).find? (isNamed username) with
  | none =>
    refine Or.inr ⟨by simp [updateNamed, modifyAccounts, hfind], ?_, ?_⟩
    · unfold updateNamed
      rw [listAccounts_modify] <;> simp only [hfind]
      exact fun a => mem_listAccounts_wellFormed
    · unfold updateNamed
      rw [active_modify]
      simp only [hfind]
  | some a =>
    have hname : a.username = username := by simpa [isNamed] using List.find?_some hfind
    obtain ⟨front, back, hlist, hmodify⟩ := modify_first change hfind
    have hdistinct := h.distinct
    rw [hlist] at hdistinct
    obtain ⟨hsameName, hsameUuid, hsameKind, hsameExtra, hsameMs⟩ := hchange.same a
    refine Or.inl ⟨a, List.mem_of_find?_eq_some hfind, front ++ change a :: back, hname, ?_, ⟨?_, ?_⟩, ?_, ?_, ?_, ?_⟩
    · simp [updateNamed, modifyAccounts, hfind]
    · unfold updateNamed
      rw [listAccounts_modify] <;> simp only [hfind, hmodify]
      intro b hb
      rcases List.mem_append.1 hb with hb | hb
      · exact mem_listAccounts_wellFormed (by rw [hlist]; exact List.mem_append_left _ hb)
      · rcases List.mem_cons.1 hb with rfl | hb
        · exact hchange.wellFormed a (mem_listAccounts_wellFormed (List.mem_of_find?_eq_some hfind))
        · exact mem_listAccounts_wellFormed (by rw [hlist]; exact List.mem_append_right _ (List.mem_cons_of_mem a hb))
    · unfold updateNamed
      rw [active_modify]
      simp only [hfind]
    · apply distinct_replace hdistinct
      · rw [hsameName]
        exact names_ne hdistinct
      · rw [hsameKind, hsameUuid]
        exact signIns_ne hdistinct
      · rw [hsameExtra, hsameMs]
        exact hdistinct.known a (List.mem_append_right _ List.mem_cons_self)
    · exact List.mem_append_right _ List.mem_cons_self
    · rw [hlist, List.filter_append, List.filter_append,
        List.filter_cons_of_neg (by simp [isNamed, hsameName, hname]),
        List.filter_cons_of_neg (by simp [isNamed, hname])]
    · rw [hlist]
      simp [hsameName]

theorem setActive_kept (h : Inv doc) (username : String) (env : Env) :
    Inv (step ext doc ⟨.setActive username, env⟩) ∧ Kept ext doc ⟨.setActive username, env⟩ := by
  have hchange : KeepsIdentity fun a : Account => { a with lastUsed := some env.nowIso } :=
    ⟨fun _ => ⟨rfl, rfl, rfl, rfl, rfl⟩, fun _ ha => ⟨ha.extra, ha.color, ha.microsoft⟩⟩
  have hcall : call ext doc ⟨.setActive username, env⟩ = (setActiveAccount env doc username).map id (.of .active) := rfl
  have hstep : step ext doc ⟨.setActive username, env⟩ = (setActiveAccount env doc username).1 := rfl
  rcases updateNamed_spec h username (fun doc => setActiveUsername doc (.str username)) (fun _ => username) hchange with
    ⟨a, ha, accounts, rfl, hok, houtcome, hdistinct, hmem, hothers, -⟩ | ⟨herr, houtcome⟩
  · have hanswer : (call ext doc ⟨.setActive a.username, env⟩).2 = .active a.username := by
      rw [hcall, Prod.map_snd, setActiveAccount, hok]
      rfl
    rw [setActiveUsername, IndexMap.get?_insert_self] at houtcome
    have hactive := Outcome.getActive (a := { a with lastUsed := some env.nowIso }) houtcome hdistinct hmem
    refine ⟨⟨?_, Or.inr (Or.inr ⟨{ a with lastUsed := some env.nowIso }, ?_, ?_⟩)⟩, ?_, ?_, ?_, ?_, ?_⟩
    · rw [hstep, setActiveAccount, houtcome.list]
      exact hdistinct
    · rw [hstep, setActiveAccount, houtcome.list]
      exact hmem
    · rw [hstep, setActiveAccount, houtcome.active]
    · intro b hb
      rw [hanswer] at hb
      cases hb
    · intro u hu
      rw [hanswer] at hu
      cases hu
      exact ⟨a, ha, rfl, hactive⟩
    · rw [hstep, setActiveAccount, houtcome.list]
      exact hothers
    · intro b hb
      rw [hanswer] at hb
      cases hb
    · intro e he
      rw [hanswer] at he
      cases he
  · apply refused_kept h (e := notFound username)
    · rw [hcall, Prod.map_snd, setActiveAccount, herr]
      rfl
    · rw [hstep]
      exact houtcome

theorem setColor_kept (h : Inv doc) (username : String) (color : Option ℤ) (env : Env) :
    Inv (step ext doc ⟨.setColor username color, env⟩) ∧ Kept ext doc ⟨.setColor username color, env⟩ := by
  by_cases hbad : color.any fun c => !isValidAvatarColor c
  case pos =>
    have hcolor : setAvatarColor env doc username color = (doc, .error badAvatarColor) := by
      rw [setAvatarColor, if_pos hbad]
    have hcall : call ext doc ⟨.setColor username color, env⟩ = (doc, .failed badAvatarColor) := by
      simp only [call, hcolor]
      rfl
    exact refused_kept h (by rw [hcall]) (by rw [step, hcall]; exact ⟨rfl, rfl⟩)
  have hvalid : ∀ c, color = some c → c ≤ 2 ^ 63 - 1 := by
    rintro c rfl
    simp only [Option.any_some, isValidAvatarColor, Bool.not_and, Bool.or_eq_true, Bool.not_eq_eq_eq_not, Bool.not_true,
      decide_eq_false_iff_not, not_or, not_not] at hbad
    omega
  have hchange : KeepsIdentity fun a : Account => { a with avatarColor := color } :=
    ⟨fun _ => ⟨rfl, rfl, rfl, rfl, rfl⟩, fun _ ha => ⟨ha.extra, hvalid, ha.microsoft⟩⟩
  have hupdate : setAvatarColor env doc username color = updateNamed doc username
      (fun a => { a with avatarColor := color }) (fun doc => doc) (publicAccount env) := by
    rw [setAvatarColor, if_neg hbad]
  have hcall : call ext doc ⟨.setColor username color, env⟩ = (setAvatarColor env doc username color).map id (.of .shown) :=
    rfl
  have hstep : step ext doc ⟨.setColor username color, env⟩ = (setAvatarColor env doc username color).1 := rfl
  rcases updateNamed_spec h username (fun doc => doc) (publicAccount env) hchange with
    ⟨a, ha, accounts, hname, hok, houtcome, hdistinct, hmem, hothers, hnames⟩ | ⟨herr, houtcome⟩
  · have hanswer : (call ext doc ⟨.setColor username color, env⟩).2 =
        .shown (publicAccount env { a with avatarColor := color }) := by
      rw [hcall, Prod.map_snd, hupdate, hok]
      rfl
    refine ⟨⟨?_, ?_⟩, ?_, ?_, ?_, ?_, ?_⟩
    · rw [hstep, hupdate, houtcome.list]
      exact hdistinct
    · rw [hstep, hupdate, houtcome.list, houtcome.active]
      rcases h.active with hnone | hnull | ⟨b, hb, hact⟩
      · exact Or.inl hnone
      · exact Or.inr (Or.inl hnull)
      · have hb' : b.username ∈ accounts.map Account.username := hnames ▸ List.mem_map_of_mem hb
        obtain ⟨b', hmem', heq⟩ := List.mem_map.1 hb'
        exact Or.inr (Or.inr ⟨b', hmem', by rw [heq]; exact hact⟩)
    · intro b hb
      rw [hanswer] at hb
      cases hb
    · intro u hu
      rw [hanswer] at hu
      cases hu
    · rw [hstep, hupdate, houtcome.list]
      exact hothers
    · intro b hb
      rw [hanswer] at hb
      cases hb
    · intro e he
      rw [hanswer] at he
      cases he
  · apply refused_kept h (e := notFound username)
    · rw [hcall, Prod.map_snd, hupdate, herr]
      rfl
    · rw [hstep, hupdate]
      exact houtcome

theorem call_kept (h : Inv doc) (hfree : Free ext doc c) : Inv (step ext doc c) ∧ Kept ext doc c := by
  obtain ⟨op, env⟩ := c
  cases op with
  | create username => exact create_kept h username env
  | upsertMsa ms =>
    exact upsert_kept h (msaAuth ext env ms) rfl rfl hfree.1
      ⟨fun _ _ => rfl, fun bits hb => by cases hb; exact hfree.2⟩ rfl
  | upsertLunar username uuid refreshToken =>
    exact upsert_kept h (lunarAuth refreshToken) rfl rfl hfree
      ⟨fun _ _ => rfl, fun bits hb => by cases hb; decide⟩ rfl
  | delete username => exact remove_kept h username false rfl (by funext a; simp [about, isRemoved])
  | deleteMsa username => exact remove_kept h username true rfl rfl
  | setActive username => exact setActive_kept h username env
  | setColor username color => exact setColor_kept h username color env

end Calls

/-- **The account store.** From a configuration without accounts and with no active name, over a run in which no sign-in
takes a name that another stored account has (and no expiry overflows): names are unique and the active one is stored in
every state, and every call answers with the account it makes active, leaves the others as they are, and changes nothing
when it fails. -/
theorem accounts_kept (ext : Ext) (doc : Doc) (calls : List Call) (hempty : listAccounts doc = [])
    (hactive : doc.get? "active_username" = none ∨ doc.get? "active_username" = some .null)
    (hfree : Meets (step ext) (Free ext) doc calls) :
    (∀ before, before <+: calls → Sound (run (step ext) doc before)) ∧
      ∀ before c, before ++ [c] <+: calls → Kept ext (run (step ext) doc before) c := by
  have hstart : Inv doc := by
    refine ⟨by rw [hempty]; exact distinct_nil, ?_⟩
    rcases hactive with h | h
    · exact Or.inl h
    · exact Or.inr (Or.inl h)
  have hinv : ∀ before, before <+: calls → Inv (run (step ext) doc before) := by
    rintro before ⟨rest, rfl⟩
    have hstep : ∀ s c, Free ext s c → Inv s → Inv (step ext s c) := fun s c hc h => (call_kept h hc).1
    exact run_invariant (step ext) hstep ((meets_append ..).1 hfree).1 hstart
  constructor
  · intro before hb
    exact (hinv before hb).sound
  · rintro before c ⟨rest, rfl⟩
    have hb := hinv before ⟨[c] ++ rest, by simp⟩
    have hc := (meets_append (step ext) (Free ext) doc before ([c] ++ rest)).1 (by simpa using hfree)
    exact (call_kept hb hc.2.1).2

/-- the hash of one name, and a fixed expiry -/
def sampleExt : Ext := ⟨fun _ => "5627dd98-e6be-3c21-b8a8-e92344183641", fun _ _ => 0x4278BCFE56800000⟩

def sampleEnv : Env := ⟨"2026-01-01T00:00:00.000Z", 0, fun i => ⟨i % 360, Nat.mod_lt i (Nat.succ_pos 359)⟩, fun _ => false⟩

/-- an offline account, a sign-in under another name that is then renamed, and the active account deleted -/
def sampleCalls : List Call :=
  [⟨.create "Steve", sampleEnv⟩, ⟨.upsertMsa ⟨"Alex", "u-1", some "r", none⟩, sampleEnv⟩,
    ⟨.upsertLunar "Alexa" "u-1" "r2", sampleEnv⟩, ⟨.setActive "Steve", sampleEnv⟩, ⟨.delete "Steve", sampleEnv⟩]

theorem accounts_kept_sample :
    (∀ before, before <+: sampleCalls → Sound (run (step sampleExt) .empty before)) ∧
      ∀ before c, before ++ [c] <+: sampleCalls → Kept sampleExt (run (step sampleExt) .empty before) c :=
  accounts_kept sampleExt .empty sampleCalls rfl (Or.inl rfl) (by decide)

/-- a sign-in under the name of an offline account -/
def collidingCalls : List Call :=
  [⟨.create "Steve", sampleEnv⟩, ⟨.upsertMsa ⟨"Steve", "u-1", some "r", none⟩, sampleEnv⟩]

/-- **A sign-in under a stored name.** Two accounts then have the name, and the one active is not the one signed in. -/
theorem name_taken :
    (listAccounts (run (step sampleExt) .empty collidingCalls)).map (fun a => (a.username, a.uuid)) =
        [("Steve", "5627dd98-e6be-3c21-b8a8-e92344183641"), ("Steve", "u-1")] ∧
      (getActiveAccount (run (step sampleExt) .empty collidingCalls)).map Account.uuid =
        some "5627dd98-e6be-3c21-b8a8-e92344183641" ∧
      ¬ ∀ (ext : Ext) (calls : List Call), Sound (run (step ext) .empty calls) := by
  refine ⟨by decide, by decide, ?_⟩
  intro h
  have hnames := (h sampleExt collidingCalls).names
  revert hnames
  decide

end EspectralClient.Accounts
