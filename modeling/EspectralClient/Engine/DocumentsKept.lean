/-
What becomes of the entries of `config.accounts` (`native/engine/src/accounts.rs`, `modify_accounts`) and of the other
documents when they are read and written back.

- `Change`: the operations that go through `modify_accounts`, with those of the sign-in and of the avatars.
- `accountKept_iff`: which entries keep their values. `change_keeps`: an operation writes back the accounts it is not
  about.
- `documents_kept`: which documents keep their values, and when an operation leaves the entries it does not name.
- `documents_lost`: an entry with a kind of another launcher vanishes at the next write, and more of the sort.
-/
import EspectralClient.Engine.Documents

namespace EspectralClient.Documents

open Lib
open Accounts (Account Call Doc Env Ext MicrosoftAuth TokenKind.read accountKeys isNamed isRemoved isSignIn
  isValidAvatarColor isValidUsername listAccounts microsoftKeys modifyAccounts readMicrosoft updateNamed)
open MsAuth (TokenKind)

/-! ## Operations -/

/-- the operations on the stored accounts -/
inductive Change where
  | call (c : Call)
  /-- the mark of an avatar that was made from a skin -/
  | setAvatarAuto (username : String) (auto : Bool)
  | persistRotatedRefresh (username newRefresh : String)

def setAvatarAuto (doc : Doc) (username : String) (auto : Bool) : Doc :=
  (updateNamed doc username (fun a => { a with avatarAuto := if auto then some true else none }) id id).1

/-- an account that has no sign-in is left as it is -/
def persistRotatedRefresh (doc : Doc) (username newRefresh : String) : Doc :=
  (modifyAccounts doc fun accounts doc =>
    (accounts.modify (accounts.findIdx (isNamed username)) fun a =>
      { a with microsoft := a.microsoft.map fun m => { m with refreshToken := some newRefresh } }, doc, ())).1

def Change.run (ext : Ext) (doc : Doc) : Change → Doc
  | .call c => Accounts.step ext doc c
  | .setAvatarAuto username auto => Documents.setAvatarAuto doc username auto
  | .persistRotatedRefresh username newRefresh => Documents.persistRotatedRefresh doc username newRefresh

/-- a call that is refused before it reads the document does not go through -/
def Change.goesThrough : Change → Bool
  | .call ⟨.create username, _⟩ => isValidUsername username
  | .call ⟨.setColor _ color, _⟩ => !color.any fun c => !isValidAvatarColor c
  | _ => true

/-- whether an operation names an account, by its name, its uuid and whether it is signed in -/
def Change.names (ch : Change) (username uuid : String) (msa : Bool) : Bool :=
  match ch with
  | .call ⟨.create name, _⟩ => username = name
  | .call ⟨.upsertMsa ms, _⟩ => msa && uuid = ms.uuid
  | .call ⟨.upsertLunar _ uuid' _, _⟩ => msa && uuid = uuid'
  | .call ⟨.delete name, _⟩ => username = name
  | .call ⟨.deleteMsa name, _⟩ => username = name && msa
  | .call ⟨.setActive name, _⟩ => username = name
  | .call ⟨.setColor name _, _⟩ => username = name
  | .setAvatarAuto name _ => username = name
  | .persistRotatedRefresh name _ => username = name

/-! ## Entries -/

def entries (doc : Doc) : List Json := ((doc.get? "accounts").bind Json.asArray).getD []

/-- whether an operation names an entry, readable or not -/
def Change.namesEntry (ch : Change) (m : Doc) : Bool :=
  ch.names (string m "username") (string m "uuid") (TokenKind.read (m.get? "token_kind") = some .msa)

def microsoftTable : List (String × Mode) :=
  [("refresh_token", .skipped .string), ("expires_at", .skipped .f64), ("lunar", .skipped .bool)]

/-- all but the sign-in -/
def accountTable : List (String × Mode) :=
  [("username", .required .string), ("uuid", .required .string), ("token_kind", .required (.choice ["offline", "msa"])),
    ("avatar_color", .nullable .i64), ("avatar_auto", .skipped .bool), ("created_at", .skipped .string),
    ("updated_at", .skipped .string), ("last_used", .skipped .string)]

/-- an entry keeps its values, and those of its sign-in -/
structure EntrySame (d out : Doc) : Prop where
  fields : Same accountKeys accountTable d out
  noSignIn : d.get? "microsoft" = some .null → out.get? "microsoft" = some .null
  signIn : ∀ v m, d.get? "microsoft" = some v → v.asObject = some m →
    ∃ m' : Doc, out.get? "microsoft" = some (.obj m'.entries) ∧ Same microsoftKeys microsoftTable m m'

/-- an account as it is written -/
def written (a : Account) : Doc := a.typed.merge a.extra

/-- an entry that is written back with the values it was read with -/
def AccountKept (d : Doc) : Prop := ∃ a, Account.fromValue (.obj d.entries) = some a ∧ EntrySame d (written a)

/-- a kind that there is, a sign-in that is an object, and values that are kept -/
structure AccountFits (d : Doc) : Prop where
  kind : TokenKind.read (d.get? "token_kind") ≠ none
  signIn : ∀ v, d.get? "microsoft" = some v → ∃ m, v.asObject = some m ∧ Fits microsoftTable m
  fields : Fits accountTable d

/-- no entry that an operation does not name is taken away or changed -/
def EntriesKept (ext : Ext) (doc : Doc) (ch : Change) : Prop :=
  ch.goesThrough = true → ∀ e ∈ entries doc, ∀ m, e.asObject = some m → ch.namesEntry m = false →
    ∃ a, Account.fromValue e = some a ∧ a.toValue ∈ entries (ch.run ext doc) ∧ EntrySame m (written a)

/-- the entries that an operation does not name fit -/
def EntriesFit (doc : Doc) (ch : Change) : Prop :=
  ch.goesThrough = true → ∀ e ∈ entries doc, ∀ m, e.asObject = some m → ch.namesEntry m = false → AccountFits m

/-! ## One entry -/

/-- the account of an entry -/
def accountOf (d : Doc) (kind : TokenKind) (microsoft : Option MicrosoftAuth) : Account :=
  ⟨string d "username", string d "uuid", kind, optI64 d "avatar_color", microsoft, optBool d "avatar_auto",
    optString d "created_at", optString d "updated_at", optString d "last_used", d.without accountKeys⟩

theorem fromValue_iff {e : Json} {m : Doc} {a : Account} (he : e.asObject = some m) : Account.fromValue e = some a ↔
    ∃ kind microsoft, TokenKind.read (m.get? "token_kind") = some kind ∧
      readMicrosoft (m.get? "microsoft") = some microsoft ∧ a = accountOf m kind microsoft := by
  rw [Account.fromValue, he, Option.bind_some, Option.bind_eq_some_iff]
  constructor
  · rintro ⟨kind, hkind, h⟩
    obtain ⟨microsoft, hmicrosoft, rfl⟩ := Option.map_eq_some_iff.1 h
    exact ⟨kind, microsoft, hkind, hmicrosoft, rfl⟩
  · rintro ⟨kind, microsoft, hkind, hmicrosoft, rfl⟩
    exact ⟨kind, hkind, by rw [hmicrosoft]; rfl⟩

theorem readMicrosoft_of_ne {v : Json} (h : v ≠ .null) :
    readMicrosoft (some v) = v.asObject.map fun m => some (MicrosoftAuth.fromFields m) := by
  cases v with
  | null => exact absurd rfl h
  | _ => rfl

theorem microsoft_written (m : Doc) :
    (∀ k ∉ microsoftKeys, ((MicrosoftAuth.fromFields m).typed.merge (m.without microsoftKeys)).get? k = m.get? k) ∧
      ∀ p ∈ microsoftTable, ∀ v, m.get? p.1 = some v →
        p.2.Out v (((MicrosoftAuth.fromFields m).typed.merge (m.without microsoftKeys)).get? p.1) := by
  have hkeys : ∀ k ∈ (MicrosoftAuth.fromFields m).typed.keys, k ∈ microsoftKeys := by
    intro k hk
    rcases Accounts.mem_keys_put hk with rfl | hk
    · decide
    rcases Accounts.mem_keys_put hk with rfl | hk
    · decide
    rcases Accounts.mem_keys_put hk with rfl | hk
    · decide
    cases hk
  refine ⟨get?_written_extra hkeys, ?_⟩
  simp only [microsoftTable, List.forall_mem_cons]
  refine ⟨?_, ?_, ?_, fun p hp => absurd hp List.not_mem_nil⟩ <;> intro v hv <;> rw [get?_written (by decide)] <;>
    apply Mode.Out.ofSkipped
  · have hget : (MicrosoftAuth.fromFields m).typed.get? "refresh_token" = (optString m "refresh_token").map .str := by
      simp [MicrosoftAuth.typed, MicrosoftAuth.fromFields, Accounts.get?_put, optString]
    rw [hget, optString_pass hv]
  · simp [MicrosoftAuth.typed, MicrosoftAuth.fromFields, Accounts.get?_put, hv, Ty.pass]
  · have hget : (MicrosoftAuth.fromFields m).typed.get? "lunar" = (optBool m "lunar").map .bool := by
      simp [MicrosoftAuth.typed, MicrosoftAuth.fromFields, Accounts.get?_put, optBool]
    rw [hget, optBool_pass hv]

theorem TokenKind.name_ofName {s : String} {kind : TokenKind} (h : Accounts.TokenKind.ofName s = some kind) :
    Accounts.TokenKind.name kind = s := by
  unfold Accounts.TokenKind.ofName at h
  split_ifs at h with h1 h2 <;> cases h
  · exact h1.symm
  · exact h2.symm

section Entry

variable {d : Doc} {kind : TokenKind}

theorem account_written (microsoft : Option MicrosoftAuth) (hkind : TokenKind.read (d.get? "token_kind") = some kind) :
    (∀ k ∉ accountKeys, (written (accountOf d kind microsoft)).get? k = d.get? k) ∧
      (written (accountOf d kind microsoft)).get? "microsoft" = microsoft.map MicrosoftAuth.toValue ∧
      ∀ p ∈ accountTable, ∀ v, d.get? p.1 = some v →
        p.2.Out v ((written (accountOf d kind microsoft)).get? p.1) := by
  have hget : ∀ k ∈ accountKeys, (written (accountOf d kind microsoft)).get? k =
      (accountOf d kind microsoft).typed.get? k := fun k hk => get?_written hk
  refine ⟨get?_written_extra (Accounts.typed_keys _), ?_, ?_⟩
  · rw [hget _ (by decide)]
    simp [Account.typed, Accounts.get?_put, IndexMap.get?_insert, accountOf]
  · simp only [accountTable, List.forall_mem_cons]
    refine ⟨?_, ?_, ?_, ?_, ?_, ?_, ?_, ?_, fun p hp => absurd hp List.not_mem_nil⟩ <;> intro v hv <;>
      rw [hget _ (by decide)] <;> simp only [Account.typed, accountOf, Accounts.get?_put, IndexMap.get?_insert]
    · simpa using out_string hv
    · simpa using out_string hv
    · apply Mode.Out.ofRequired
      rintro ⟨s, hs, rfl⟩
      rw [hv] at hkind
      rw [choice_pass hs]
      simpa using TokenKind.name_ofName hkind
    · apply Mode.Out.ofNullable
      rw [← optI64_pass hv]
      simp [orNull]
    · apply Mode.Out.ofSkipped
      rw [← optBool_pass hv]
      simp
    · apply Mode.Out.ofSkipped
      rw [← optString_pass hv]
      simp
    · apply Mode.Out.ofSkipped
      rw [← optString_pass hv]
      simp
    · apply Mode.Out.ofSkipped
      rw [← optString_pass hv]
      simp

end Entry

theorem entries_inj {m m' : Doc} (h : Json.obj m.entries = .obj m'.entries) : m = m' := by
  obtain ⟨entries, hn⟩ := m
  obtain ⟨entries', hn'⟩ := m'
  obtain rfl := Json.obj.inj h
  rfl

theorem signIn_same_iff {m m' : Doc} (h : m' = (MicrosoftAuth.fromFields m).typed.merge (m.without microsoftKeys)) :
    Same microsoftKeys microsoftTable m m' ↔ Fits microsoftTable m := by
  subst h
  exact same_iff_fits (microsoft_written m).1 (microsoft_written m).2

/-- **Which entries keep their values.** -/
theorem entry_iff {e : Json} {d : Doc} (he : e.asObject = some d) :
    (∃ a, Account.fromValue e = some a ∧ EntrySame d (written a)) ↔ AccountFits d := by
  constructor
  · rintro ⟨a, ha, hsame⟩
    obtain ⟨kind, microsoft, hkind, hmicrosoft, rfl⟩ := (fromValue_iff he).1 ha
    obtain ⟨hextra, hms, htable⟩ := account_written microsoft hkind
    refine ⟨by simp [hkind], ?_, (same_iff_fits hextra htable).1 hsame.fields⟩
    intro v hv
    have hnull : v ≠ .null := by
      rintro rfl
      rw [hv] at hmicrosoft
      obtain rfl := Option.some.inj hmicrosoft
      have hout := hsame.noSignIn hv
      rw [hms] at hout
      cases hout
    rw [hv, readMicrosoft_of_ne hnull] at hmicrosoft
    obtain ⟨m, hm, rfl⟩ := Option.map_eq_some_iff.1 hmicrosoft
    obtain ⟨m', hout, hsame⟩ := hsame.signIn v m hv hm
    rw [hms] at hout
    exact ⟨m, hm, (signIn_same_iff (entries_inj (Option.some.inj hout)).symm).1 hsame⟩
  · rintro ⟨hkind, hsignIn, hfields⟩
    obtain ⟨kind, hkind⟩ := Option.ne_none_iff_exists'.1 hkind
    obtain ⟨microsoft, hmicrosoft, hread⟩ : ∃ microsoft, readMicrosoft (d.get? "microsoft") = some microsoft ∧
        ∀ v m, d.get? "microsoft" = some v → v.asObject = some m → microsoft = some (MicrosoftAuth.fromFields m) := by
      cases hv : d.get? "microsoft" with
      | none => exact ⟨none, rfl, fun v m h => by cases h⟩
      | some v =>
        obtain ⟨m, hm, -⟩ := hsignIn v hv
        refine ⟨some (MicrosoftAuth.fromFields m), ?_, ?_⟩
        · rw [readMicrosoft_of_ne, hm]
          · rfl
          · rintro rfl
            cases hm
        · intro w m' hw hm'
          obtain rfl := Option.some.inj hw
          rw [Option.some.inj (hm.symm.trans hm')]
    obtain ⟨hextra, hms, htable⟩ := account_written microsoft hkind
    refine ⟨accountOf d kind microsoft, (fromValue_iff he).2 ⟨kind, microsoft, hkind, hmicrosoft, rfl⟩,
      (same_iff_fits hextra htable).2 hfields, ?_, ?_⟩
    · intro hnull
      obtain ⟨m, hm, -⟩ := hsignIn _ hnull
      cases hm
    · intro v m hv hm
      obtain ⟨m', hm', hfits⟩ := hsignIn v hv
      obtain rfl := Option.some.inj (hm'.symm.trans hm)
      refine ⟨_, ?_, (signIn_same_iff rfl).2 hfits⟩
      rw [hms, hread v m' hv hm]
      rfl

theorem accountKept_iff (d : Doc) : AccountKept d ↔ AccountFits d := entry_iff (Accounts.asObject_entries d)

/-! ## All entries -/

theorem listAccounts_entries (doc : Doc) : listAccounts doc = (entries doc).filterMap Account.fromValue := by
  unfold listAccounts entries
  cases doc.get? "accounts" with
  | none => rfl
  | some v => cases v <;> rfl

theorem entries_modify {ρ : Type} (doc : Doc) (f : List Account → Doc → List Account × Doc × ρ) :
    entries (modifyAccounts doc f).1 = (f (listAccounts doc) doc).1.map Account.toValue := by
  simp only [modifyAccounts, entries, IndexMap.get?_insert_self, Option.bind_some]
  rfl

/-- a section writes back what its body leaves in the list -/
theorem mem_entries_modify {ρ : Type} {doc : Doc} {f : List Account → Doc → List Account × Doc × ρ} {a : Account}
    (h : a ∈ (f (listAccounts doc) doc).1) : a.toValue ∈ entries (modifyAccounts doc f).1 := by
  rw [entries_modify]
  exact List.mem_map_of_mem h

theorem mem_modify_findIdx {l : List Account} {p : Account → Bool} {change : Account → Account} {a : Account}
    (ha : a ∈ l) (hp : p a = false) : a ∈ l.modify (l.findIdx p) change := by
  induction l with
  | nil => cases ha
  | cons b rest ih =>
    rw [List.findIdx_cons]
    cases hb : p b with
    | true =>
      rcases List.mem_cons.1 ha with rfl | ha
      · rw [hb] at hp
        cases hp
      · exact List.mem_cons_of_mem _ ha
    | false =>
      rw [cond_false, List.modify_succ_cons]
      rcases List.mem_cons.1 ha with rfl | ha
      · exact List.mem_cons_self
      · exact List.mem_cons_of_mem _ (ih ha)

theorem mem_update {ρ : Type} {doc : Doc} {username : String} {change : Account → Account} {after : Doc → Doc}
    {answer : Account → ρ} {a : Account} (ha : a ∈ listAccounts doc) (hname : a.username ≠ username) :
    a.toValue ∈ entries (updateNamed doc username change after answer).1 := by
  apply mem_entries_modify
  cases (listAccounts doc).find? (isNamed username) with
  | none => exact ha
  | some b => exact mem_modify_findIdx ha (by simpa [isNamed] using hname)

theorem mem_remove {doc : Doc} {username : String} {msaOnly : Bool} {a : Account} (ha : a ∈ listAccounts doc)
    (hne : isRemoved username msaOnly a = false) :
    a.toValue ∈ entries (Accounts.removeAccountWhere doc username msaOnly).1 := by
  apply mem_entries_modify
  by_cases hany : (listAccounts doc).any (isRemoved username msaOnly)
  · simp only [hany, if_true]
    exact (List.mem_eraseP_of_neg (by simp [hne])).2 ha
  · simp only [hany, Bool.false_eq_true, if_false]
    exact ha

theorem mem_upsert {env : Env} {doc : Doc} {username uuid : String} {microsoft : MicrosoftAuth} {a : Account}
    (ha : a ∈ listAccounts doc) (hne : isSignIn uuid a = false) :
    a.toValue ∈ entries (Accounts.upsertOnline env doc username uuid microsoft).1 := by
  apply mem_entries_modify
  cases hidx : (listAccounts doc).findIdx? (isSignIn uuid) with
  | none => exact List.mem_append_left _ ha
  | some i =>
    obtain ⟨front, x, back, hlist, rfl, hx, -⟩ := Accounts.split_findIdx? hidx
    have hset : ∀ b : Account, (listAccounts doc).set front.length b = front ++ b :: back := by
      intro b
      rw [hlist]
      simp
    simp only [hset]
    rw [hlist] at ha
    rcases List.mem_append.1 ha with ha | ha
    · exact List.mem_append_left _ ha
    rcases List.mem_cons.1 ha with rfl | ha
    · rw [hx] at hne
      cases hne
    · exact List.mem_append_right _ (List.mem_cons_of_mem _ ha)

/-- **An operation writes back the accounts it does not name.** -/
theorem change_keeps (ext : Ext) {doc : Doc} {ch : Change} {a : Account} (ha : a ∈ listAccounts doc)
    (hthrough : ch.goesThrough = true) (hnames : ch.names a.username a.uuid (a.tokenKind = .msa) = false) :
    a.toValue ∈ entries (ch.run ext doc) := by
  cases ch with
  | call c =>
    obtain ⟨op, env⟩ := c
    cases op with
    | create username =>
      have hvalid : isValidUsername username = true := hthrough
      simp only [Change.run, Accounts.step, Accounts.call, Accounts.createAccount, hvalid, Bool.not_true,
        Bool.false_eq_true, if_false, Prod.map_fst, id_eq]
      apply mem_entries_modify
      split_ifs
      · exact ha
      · exact List.mem_append_left _ ha
    | upsertMsa ms =>
      apply mem_upsert ha
      simpa [isSignIn, Change.names] using hnames
    | upsertLunar username uuid refreshToken =>
      apply mem_upsert ha
      simpa [isSignIn, Change.names] using hnames
    | delete username =>
      apply mem_remove ha
      simpa [isRemoved, isNamed, Change.names] using hnames
    | deleteMsa username =>
      apply mem_remove ha
      simpa [isRemoved, isNamed, Change.names] using hnames
    | setActive username =>
      simp only [Change.run, Accounts.step, Accounts.call, Accounts.setActiveAccount, Prod.map_fst, id_eq]
      apply mem_update ha
      simpa [Change.names] using hnames
    | setColor username color =>
      have hcolor : (color.any fun c => !isValidAvatarColor c) = false := by
        simpa [Change.goesThrough] using hthrough
      simp only [Change.run, Accounts.step, Accounts.call, Accounts.setAvatarColor, hcolor, Bool.false_eq_true,
        if_false, Prod.map_fst, id_eq]
      apply mem_update ha
      simpa [Change.names] using hnames
  | setAvatarAuto username auto =>
    apply mem_update ha
    simpa [Change.names] using hnames
  | persistRotatedRefresh username newRefresh =>
    apply mem_entries_modify
    exact mem_modify_findIdx ha (by simpa [isNamed, Change.names] using hnames)

theorem entriesKept_iff (ext : Ext) (doc : Doc) (ch : Change) : EntriesKept ext doc ch ↔ EntriesFit doc ch := by
  constructor
  · intro h hthrough e he m hm hnames
    obtain ⟨a, ha, -, hsame⟩ := h hthrough e he m hm hnames
    exact (entry_iff hm).1 ⟨a, ha, hsame⟩
  · intro h hthrough e he m hm hnames
    obtain ⟨a, ha, hsame⟩ := (entry_iff hm).2 (h hthrough e he m hm hnames)
    refine ⟨a, ha, ?_, hsame⟩
    have hmem : a ∈ listAccounts doc := by
      rw [listAccounts_entries]
      exact List.mem_filterMap.2 ⟨e, he, ha⟩
    apply change_keeps ext hmem hthrough
    obtain ⟨kind, microsoft, hkind, -, rfl⟩ := (fromValue_iff hm).1 ha
    rw [← hnames, Change.namesEntry]
    congr 1
    apply decide_eq_decide.2
    simp [hkind, accountOf]

/-- **Which documents keep their values**, and which entries an operation leaves that it does not name. -/
theorem documents_kept (ext : Ext) (d doc : Doc) (ch : Change) : (AccountKept d ↔ AccountFits d) ∧
    (InstanceKept d ↔ InstanceFits d) ∧ (RuntimeKept d ↔ RuntimeFits d) ∧ (EntriesKept ext doc ch ↔ EntriesFit doc ch) :=
  ⟨accountKept_iff d, instanceKept_iff d, runtimeKept_iff d, entriesKept_iff ext doc ch⟩

/-! ## What is lost -/

def one (k : String) (v : Json) : Doc := IndexMap.empty.insert k v

/-- an account of another launcher, in a document with one account of this one -/
def foreign : Doc := one "accounts" (.arr [.obj (one "token_kind" (.str "mojang")).entries])

/-- **Values are lost.** A kind of another launcher takes the account with it when another account is made the active
one, and mods that are no list take the instance; a switch that is off and a null that is left out are lost alone. -/
theorem documents_lost : ¬ AccountKept (one "token_kind" (.str "mojang")) ∧ ¬ AccountKept (one "microsoft" (.int 5)) ∧
    ¬ InstanceKept (one "mods" (.str "all")) ∧ ¬ InstanceKept (one "capture_tools" (.bool false)) ∧
    ¬ InstanceKept (one "created_at" .null) ∧ ¬ RuntimeKept (one "path" (.int 5)) ∧
    ∀ ext env, ¬ EntriesKept ext foreign (.call ⟨.setActive "Steve", env⟩) := by
  have hkind : ¬ AccountFits (one "token_kind" (.str "mojang")) := fun h => h.kind (by decide)
  refine ⟨?_, ?_, ?_, ?_, ?_, ?_, ?_⟩
  · rwa [accountKept_iff]
  · rw [accountKept_iff]
    intro h
    obtain ⟨m, hm, -⟩ := h.signIn (.int 5) (by simp [one])
    cases hm
  · rw [instanceKept_iff]
    exact fun h => h.mods (by simp [one, readList])
  · rw [instanceKept_iff]
    exact fun h => h.fields ("capture_tools", .flag) (by simp [instanceTable]) (.bool false) (by simp [one]) rfl
  · rw [instanceKept_iff]
    exact fun h => (h.fields ("created_at", .skipped .string) (by simp [instanceTable]) .null (by simp [one])).1 rfl
  · rw [runtimeKept_iff]
    exact fun h => h.path (by simp [one, readText])
  · intro ext env
    rw [entriesKept_iff]
    intro h
    have hentries : entries foreign = [.obj (one "token_kind" (.str "mojang")).entries] := by
      simp [entries, foreign, one, Json.asArray]
    refine hkind (h rfl _ (by simp [hentries]) _ (Accounts.asObject_entries _) ?_)
    simp [Change.namesEntry, Change.names, string, optString, one, IndexMap.get?_insert]

end EspectralClient.Documents
