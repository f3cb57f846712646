/-
A refresh never takes a working country table away, as long as the year of the release has four digits.

- `Kept`: what is promised of a folder that a refresh leaves behind, at any point of it.
- `Installs`: the refresh gets as far as pointing `meta.json` at the new table of a month.
- `folders_kept_iff`: every folder of a refresh is kept if and only if the month that it installs is one that `tablePath`
  accepts in a file name, or there was no table before.
- `lost_in_year_10000`: a year later the pointer names a file that is never accepted, and the old table is deleted.
-/
import EspectralClient.Engine.GeoRefresh

namespace EspectralClient.GeoRefresh

open EspectralClient.Geoip EspectralClient.Lib EspectralClient.Lib.Bytes

section Kept

variable (S : Serde) (decoder : Bytes → Except String String)

/-! ## What is promised -/

/-- a file that holds, in full, the table of an answer that this refresh got -/
def Fresh (ev : Events) (e : Option Entry) : Prop :=
  ∃ gz source bytes table modified, (ev.first = .ok gz ∨ ev.second = .ok gz) ∧
    build decoder gz source = .ok (bytes, table) ∧ table.v4 ≠ [] ∧ table.v6 ≠ [] ∧ encode table = .ok bytes ∧
    e = some (.file bytes modified)

/-- the table of `d`, after a refresh that started from `d₀` -/
def Kept (ev : Events) (d₀ d : Dir) : Prop :=
  match tablePath S d₀ with
  | some name => tablePath S d = some name ∧ d name = d₀ name ∨
      ∃ name', tablePath S d = some name' ∧ Fresh decoder ev (d name')
  | none => tablePath S d = none ∨ ∃ name', tablePath S d = some name' ∧ Fresh decoder ev (d name')

/-- the release of `month` is asked for and answered with `gz` -/
inductive Downloads (current previous : String) (held : Option GeoMeta) (ev : Events) : String → Bytes → Prop
  | current {gz : Bytes} (h : ev.first = .ok gz) : Downloads current previous held ev current gz
  | previous {gz : Bytes} (hmissing : ev.first = .error (.status 404))
      (hheld : held.any (fun m => m.month = previous) = false) (hother : previous ≠ current)
      (h : ev.second = .ok gz) : Downloads current previous held ev previous gz

/-- the refresh builds the table of `month` and writes both the table and the pointer to it -/
structure Installs (base : String) (now : DateTime) (d : Dir) (ev : Events) (month : String) : Prop where
  dirOk : ev.dirOk = true
  stale : (existing S d now).any (fun m => m.month = monthKey now) = false
  built : ∃ gz bytes table, Downloads (monthKey now) (previousKey now) (existing S d now) ev month gz ∧
    build decoder gz (sourceOf base month) = .ok (bytes, table)
  tableWritten : ev.tableOk = true ∧ d (tableName month) ≠ some .other
  metaWritten : ev.metaOk = true ∧ d metaFile ≠ some .other

variable {S decoder}

theorem Kept.refl (ev : Events) (d : Dir) : Kept S decoder ev d d := by
  unfold Kept
  cases h : tablePath S d with
  | none => exact .inl rfl
  | some name => exact .inl ⟨rfl, rfl⟩

theorem Kept.of_fresh {ev : Events} {d₀ d : Dir} {name : String} (hpath : tablePath S d = some name)
    (hfresh : Fresh decoder ev (d name)) : Kept S decoder ev d₀ d := by
  unfold Kept
  cases tablePath S d₀ with
  | none => exact .inr ⟨name, hpath, hfresh⟩
  | some old => exact .inr ⟨name, hpath, hfresh⟩

/-! ## The table that is built -/

theorem wellSized_encode {table : GeoTable} {bytes : Bytes} (h : encode table = .ok bytes) :
    wellSized bytes = true := by
  have hlen := encode_length h
  have hheader : bytes.length < headerLen → False := by
    rw [hlen, Header.totalLen]
    omega
  obtain ⟨rest, hv4, hv6, hcountries, rfl⟩ : ∃ rest, table.v4.length < 2 ^ 32 ∧ table.v6.length < 2 ^ 32 ∧
      table.countries.length < 2 ^ 32 ∧ bytes = (magic ++ (toLe 4 table.v4.length ++ (toLe 4 table.v6.length ++
        (toLe 4 table.countries.length ++ (toLe 4 0 ++ []))))) ++ rest := by
    unfold encode at h
    split_ifs at h with hc h4 h6
    cases h
    refine ⟨table.countries.flatMap Vector.toList ++ (table.v4.flatMap encodeRange ++ table.v6.flatMap encodeRange),
      by omega, by omega, by omega, ?_⟩
    simp only [List.append_assoc, List.nil_append]
  have htake : (magic ++ (toLe 4 table.v4.length ++ (toLe 4 table.v6.length ++ (toLe 4 table.countries.length ++
      (toLe 4 0 ++ []))))).length = headerLen := by
    have hmagic : magic.length = 8 := rfl
    simp only [List.length_append, length_toLe, hmagic, headerLen, List.length_nil]
  rw [wellSized, List.take_left' htake, parseHeader_append hv4 hv6 hcountries]
  simp only [hlen, Bool.and_eq_true, Bool.not_eq_true', decide_eq_false_iff_not, decide_true, and_true]
  rw [← hlen]
  exact hheader

theorem build_ok {gz : Bytes} {source : String} {bytes : Bytes} {table : GeoTable}
    (h : build decoder gz source = .ok (bytes, table)) :
    table.v4 ≠ [] ∧ table.v6 ≠ [] ∧ encode table = .ok bytes := by
  unfold build at h
  split at h
  · cases h
  · dsimp only at h
    split_ifs at h with hempty
    split at h
    · cases h
    · rename_i hencode
      cases h
      exact ⟨fun h => hempty (.inl h), fun h => hempty (.inr h), hencode⟩

theorem Downloads.fresh {current previous month source : String} {held : Option GeoMeta} {ev : Events}
    {gz bytes : Bytes} {table : GeoTable} {modified : Option ℤ} (h : Downloads current previous held ev month gz)
    (hbuild : build decoder gz source = .ok (bytes, table)) : Fresh decoder ev (some (.file bytes modified)) := by
  have hanswer : ev.first = .ok gz ∨ ev.second = .ok gz := by
    cases h with
    | current h => exact .inl h
    | previous _ _ _ h => exact .inr h
  obtain ⟨hv4, hv6, hencode⟩ := build_ok hbuild
  exact ⟨gz, source, bytes, table, modified, hanswer, hbuild, hv4, hv6, hencode, rfl⟩

theorem download_eq_inr {current previous month : String} {held : Option GeoMeta} {ev : Events} {gz : Bytes} :
    download current previous held ev = .inr (month, gz) ↔ Downloads current previous held ev month gz := by
  constructor
  · intro h
    unfold download at h
    split at h
    · rename_i hfirst
      cases h
      exact .current hfirst
    · rename_i e hfirst
      split_ifs at h with hstatus hheld hsame hsome
      · split at h
        · rename_i hsecond
          cases h
          subst hstatus
          exact .previous hfirst (Bool.eq_false_iff.2 hheld) hsame hsecond
        · cases h
  · intro h
    unfold download
    cases h with
    | current h => rw [h]
    | previous hmissing hheld hother h => simp [hmissing, hheld, hother, h]

/-! ## The pointer -/

theorem metaFile_ne (month : String) : tableName month ≠ metaFile := by
  intro h
  have hlist := congrArg String.toList h
  rw [tableName, String.toList_append, String.toList_append] at hlist
  have hhead : some 'c' = metaFile.toList.head? := by simpa using congrArg List.head? hlist
  exact absurd hhead (by decide)

theorem validTableName_metaFile : validTableName metaFile = false := by decide

theorem tablePath_congr {d d' : Dir} (hmeta : d' metaFile = d metaFile)
    (hfile : ∀ m, readMeta S d = some m → d' m.file = d m.file) : tablePath S d' = tablePath S d := by
  have hread : readMeta S d' = readMeta S d := by rw [readMeta, hmeta, ← readMeta]
  unfold tablePath
  rw [hread]
  cases hm : readMeta S d with
  | none => rfl
  | some m =>
    dsimp only
    rw [hfile m hm]

theorem tablePath_eq_some {d : Dir} {name : String} (h : tablePath S d = some name) :
    ∃ m, readMeta S d = some m ∧ m.file = name := by
  unfold tablePath at h
  split at h
  · cases h
  · rename_i m hm
    split_ifs at h
    split at h
    · split_ifs at h
      exact ⟨m, hm, Option.some.inj h⟩
    · cases h

variable (S) in
/-- the pointer that a refresh wrote, and beside it the table that it names -/
structure Installed (base month : String) (now : DateTime) (ev : Events) (bytes : Bytes) (table : GeoTable) (s : Dir) :
    Prop where
  pointer : s metaFile = some (.file (S.print (newMeta base month now bytes table)) ev.written)
  table : s (tableName month) = some (.file bytes ev.written)

theorem tablePath_installed {base month : String} {now : DateTime} {ev : Events} {s : Dir} {bytes : Bytes}
    {table : GeoTable} (hencode : encode table = .ok bytes) (h : Installed S base month now ev bytes table s) :
    tablePath S s = if isMonth month.toList = true then some (tableName month) else none := by
  have hread : readMeta S s = some (newMeta base month now bytes table) := by
    rw [readMeta, h.pointer]
    exact S.parse_print _
  have hname : (newMeta base month now bytes table).file = tableName month := rfl
  rw [tablePath, hread]
  dsimp only
  rw [hname, validTableName_tableName, h.table]
  cases isMonth month.toList with
  | false => rfl
  | true => simp [wellSized_encode hencode]

/-! ## The points of a refresh -/

theorem kept_table {ev : Events} {d : Dir} {month : String} {bytes : Bytes} {table : GeoTable} {modified : Option ℤ}
    (hencode : encode table = .ok bytes) (hfresh : Fresh decoder ev (some (.file bytes modified))) :
    Kept S decoder ev d (Function.update d (tableName month) (some (.file bytes modified))) := by
  have hmeta : Function.update d (tableName month) (some (.file bytes modified)) metaFile = d metaFile :=
    Function.update_of_ne (metaFile_ne month).symm _ _
  by_cases hpointed : ∃ m, readMeta S d = some m ∧ m.file = tableName month
  · -- the file that the pointer names is replaced by a whole new table
    obtain ⟨m, hm, hfile⟩ := hpointed
    have hread : readMeta S (Function.update d (tableName month) (some (.file bytes modified))) = some m := by
      rw [readMeta, hmeta, ← readMeta, hm]
    by_cases hvalid : validTableName (tableName month) = true
    · refine .of_fresh (?_ : _ = some (tableName month)) (by rwa [Function.update_self])
      rw [tablePath, hread]
      dsimp only
      rw [hfile, hvalid, Function.update_self]
      simp [wellSized_encode hencode]
    · have hnone : ∀ d' : Dir, readMeta S d' = some m → tablePath S d' = none := by
        intro d' hm'
        rw [tablePath, hm']
        dsimp only
        rw [hfile, Bool.eq_false_iff.2 hvalid]
        rfl
      rw [Kept, hnone d hm, hnone _ hread]
      exact .inl rfl
  · have hsame : tablePath S (Function.update d (tableName month) (some (.file bytes modified))) = tablePath S d :=
      tablePath_congr hmeta fun m hm => Function.update_of_ne (fun h => hpointed ⟨m, hm, h⟩) _ _
    rw [Kept, hsame]
    cases hpath : tablePath S d with
    | none => exact .inl rfl
    | some name =>
      obtain ⟨m, hm, rfl⟩ := tablePath_eq_some hpath
      exact .inl ⟨rfl, Function.update_of_ne (fun h => hpointed ⟨m, hm, h⟩) _ _⟩

theorem pruneTables_spec {keep : String} {listing : List (String × Bool)} {d d' : Dir}
    (h : d' ∈ pruneTables keep d listing) : d' keep = d keep ∧ d' metaFile = d metaFile := by
  induction listing generalizing d with
  | nil => cases h
  | cons p rest ih =>
    obtain ⟨name, ok⟩ := p
    rw [pruneTables] at h
    split_ifs at h with hprune
    · have hkeep : Function.update d name none keep = d keep := Function.update_of_ne (Ne.symm hprune.1) _ _
      have hmeta : Function.update d name none metaFile = d metaFile := by
        refine Function.update_of_ne (fun heq => ?_) _ _
        rw [← heq, validTableName_metaFile] at hprune
        cases hprune.2.1
      rcases List.mem_cons.1 h with rfl | h
      · exact ⟨hkeep, hmeta⟩
      · exact ⟨(ih h).1.trans hkeep, (ih h).2.trans hmeta⟩
    · exact ih h

theorem writePrivate_some {d d' : Dir} {name : String} {bytes : Bytes} {modified : Option ℤ} {ok : Bool} :
    writePrivate d name bytes modified ok = some d' ↔
      (ok = true ∧ d name ≠ some .other) ∧ Function.update d name (some (.file bytes modified)) = d' := by
  unfold writePrivate
  split_ifs with h
  · simp [h]
  · simp [h]

/-- the folder once both files are written, and after any deletion -/
theorem installed_prune {base month : String} {now : DateTime} {d s : Dir} {ev : Events} {bytes : Bytes}
    {table : GeoTable} (h : Installed S base month now ev bytes table d) {listing : List (String × Bool)}
    (hs : s ∈ d :: pruneTables (tableName month) d listing) : Installed S base month now ev bytes table s := by
  rcases List.mem_cons.1 hs with rfl | hs
  · exact h
  · obtain ⟨hkeep, hmeta⟩ := pruneTables_spec hs
    exact ⟨hmeta.trans h.pointer, hkeep.trans h.table⟩

variable (S) in
/-- What a refresh does with a table it has built: it writes nothing more than the table file, or it installs it. -/
theorem install_cases (base month : String) (now : DateTime) (d : Dir) {ev : Events} {bytes : Bytes} {table : GeoTable}
    (hencode : encode table = .ok bytes) (hnew : Fresh decoder ev (some (.file bytes ev.written))) :
    (¬ ((ev.tableOk = true ∧ d (tableName month) ≠ some .other) ∧ ev.metaOk = true ∧ d metaFile ≠ some .other) ∧
      ∀ s ∈ (install S base month now d ev bytes table).1, Kept S decoder ev d s) ∨
    ((ev.tableOk = true ∧ d (tableName month) ≠ some .other) ∧ ev.metaOk = true ∧ d metaFile ≠ some .other) ∧
      (∀ s ∈ (install S base month now d ev bytes table).1,
        Kept S decoder ev d s ∨ Installed S base month now ev bytes table s) ∧
      ∃ s ∈ (install S base month now d ev bytes table).1, Installed S base month now ev bytes table s := by
  unfold install
  cases htable : writePrivate d (tableName month) bytes ev.written ev.tableOk with
  | none =>
    refine .inl ⟨fun h => ?_, fun s hs => ?_⟩
    · rw [writePrivate_some.2 ⟨h.1, rfl⟩] at htable
      cases htable
    · rw [List.mem_singleton.1 hs]
      exact .refl ev d
  | some d₁ =>
    obtain ⟨htableOk, rfl⟩ := writePrivate_some.1 htable
    have hmetaFile : Function.update d (tableName month) (some (.file bytes ev.written)) metaFile = d metaFile :=
      Function.update_of_ne (metaFile_ne month).symm _ _
    have hfile : Function.update d (tableName month) (some (.file bytes ev.written)) (tableName month) =
      some (.file bytes ev.written) := Function.update_self ..
    have hkept : Kept S decoder ev d (Function.update d (tableName month) (some (.file bytes ev.written))) :=
      kept_table hencode hnew
    generalize Function.update d (tableName month) (some (.file bytes ev.written)) = d₁ at *
    dsimp only
    cases hmeta : writePrivate d₁ metaFile (S.print (newMeta base month now bytes table)) ev.written ev.metaOk with
    | none =>
      refine .inl ⟨fun h => ?_, fun s hs => ?_⟩
      · rw [writePrivate_some.2 ⟨⟨h.2.1, by rw [hmetaFile]; exact h.2.2⟩, rfl⟩] at hmeta
        cases hmeta
      · rcases List.mem_cons.1 hs with rfl | hs
        · exact .refl ev s
        · rw [List.mem_singleton.1 hs]
          exact hkept
    | some d₂ =>
      obtain ⟨hmetaOk, rfl⟩ := writePrivate_some.1 hmeta
      have hinstalled : Installed S base month now ev bytes table
          (Function.update d₁ metaFile (some (.file (S.print (newMeta base month now bytes table)) ev.written))) :=
        ⟨Function.update_self .., (Function.update_of_ne (metaFile_ne month) _ _).trans hfile⟩
      refine .inr ⟨⟨htableOk, hmetaOk.1, hmetaFile ▸ hmetaOk.2⟩, fun s hs => ?_, ?_⟩
      · rcases List.mem_cons.1 hs with rfl | hs
        · exact .inl (.refl ev s)
        · rcases List.mem_cons.1 hs with rfl | hs
          · exact .inl hkept
          · exact .inr (installed_prune hinstalled hs)
      · exact ⟨_, List.mem_cons_of_mem _ (List.mem_cons_of_mem _ List.mem_cons_self), hinstalled⟩

theorem Installs.unique {base month month' : String} {now : DateTime} {d : Dir} {ev : Events} {gz : Bytes}
    (h : Installs S decoder base now d ev month')
    (hdownload : download (monthKey now) (previousKey now) (existing S d now) ev = .inr (month, gz)) :
    month' = month ∧ ∃ bytes table, build decoder gz (sourceOf base month) = .ok (bytes, table) := by
  obtain ⟨gz', bytes, table, hgz', hbuild⟩ := h.built
  have hsame := (download_eq_inr.2 hgz').symm.trans hdownload
  cases hsame
  exact ⟨rfl, bytes, table, hbuild⟩

variable (S decoder) in
/-- how far a refresh gets: no table is installed and every folder is kept, or that of one month is -/
theorem refresh_cases (base : String) (now : DateTime) (d : Dir) (ev : Events) :
    ((∀ month, ¬ Installs S decoder base now d ev month) ∧
      ∀ s ∈ (refreshFrom S decoder base now d ev).1, Kept S decoder ev d s) ∨
    ∃ month bytes table, Installs S decoder base now d ev month ∧
      (∀ month', Installs S decoder base now d ev month' → month' = month) ∧ encode table = .ok bytes ∧
      Fresh decoder ev (some (.file bytes ev.written)) ∧
      (∀ s ∈ (refreshFrom S decoder base now d ev).1,
        Kept S decoder ev d s ∨ Installed S base month now ev bytes table s) ∧
      ∃ s ∈ (refreshFrom S decoder base now d ev).1, Installed S base month now ev bytes table s := by
  have hstill : ∀ s ∈ [d], Kept S decoder ev d s := by
    intro s hs
    rw [List.mem_singleton.1 hs]
    exact .refl ev d
  unfold refreshFrom
  split_ifs with hdir hfresh
  · exact .inl ⟨fun _ h => by simp [h.dirOk] at hdir, hstill⟩
  · exact .inl ⟨fun _ h => by simp [h.stale] at hfresh, hstill⟩
  · cases hdownload : download (monthKey now) (previousKey now) (existing S d now) ev with
    | inl result =>
      refine .inl ⟨fun month h => ?_, hstill⟩
      obtain ⟨gz, _, _, hgz, -⟩ := h.built
      rw [download_eq_inr.2 hgz] at hdownload
      cases hdownload
    | inr p =>
      obtain ⟨month, gz⟩ := p
      dsimp only
      cases hbuild : build decoder gz (sourceOf base month) with
      | error e =>
        refine .inl ⟨fun month' h => ?_, hstill⟩
        obtain ⟨-, bytes, table, hok⟩ := h.unique hdownload
        rw [hbuild] at hok
        cases hok
      | ok r =>
        obtain ⟨bytes, table⟩ := r
        have hgz := download_eq_inr.1 hdownload
        have hencode := (build_ok hbuild).2.2
        have hnew : Fresh decoder ev (some (.file bytes ev.written)) := hgz.fresh hbuild
        rcases install_cases S base month now d hencode hnew with
          ⟨hnot, hkept⟩ | ⟨hwritten, hstates, hinstalled⟩
        · refine .inl ⟨fun month' h => hnot ?_, hkept⟩
          obtain ⟨rfl, -⟩ := h.unique hdownload
          exact ⟨h.tableWritten, h.metaWritten⟩
        · have hinstalls : Installs S decoder base now d ev month :=
            ⟨by simpa using hdir, by simpa using hfresh, ⟨gz, bytes, table, hgz, hbuild⟩, hwritten.1, hwritten.2⟩
          exact .inr ⟨month, bytes, table, hinstalls, fun month' h => (h.unique hdownload).1, hencode, hnew, hstates,
            hinstalled⟩

/-! ## The refresh -/

/-- the pointer to a table that no name may have takes the old table away -/
theorem lost_of_invalid {base month : String} {now : DateTime} {d : Dir} {ev : Events} (hold : tablePath S d ≠ none)
    (h : Installs S decoder base now d ev month) (hinvalid : isMonth month.toList ≠ true) :
    ∃ s ∈ (refreshFrom S decoder base now d ev).1, tablePath S s = none ∧ ¬ Kept S decoder ev d s := by
  rcases refresh_cases S decoder base now d ev with
    ⟨hnone, -⟩ | ⟨month', bytes, table, -, honly, hencode, -, -, last, hlast, hinstalled⟩
  · exact absurd h (hnone month)
  · obtain rfl := honly month h
    have hgone := (tablePath_installed hencode hinstalled).trans (if_neg hinvalid)
    refine ⟨last, hlast, hgone, fun hkept => ?_⟩
    unfold Kept at hkept
    rw [hgone] at hkept
    cases hpath : tablePath S d with
    | none => exact hold hpath
    | some name => simp [hpath] at hkept

theorem kept_of_valid {base : String} {now : DateTime} {d : Dir} {ev : Events}
    (hsafe : tablePath S d = none ∨ ∀ month, Installs S decoder base now d ev month → isMonth month.toList = true) :
    ∀ s ∈ (refreshFrom S decoder base now d ev).1, Kept S decoder ev d s := by
  rcases refresh_cases S decoder base now d ev with
    ⟨-, hkept⟩ | ⟨month, bytes, table, hinstalls, -, hencode, hnew, hstates, -⟩
  · exact hkept
  · intro s hs
    rcases hstates s hs with hkept | hinstalled
    · exact hkept
    · have hpath := tablePath_installed hencode hinstalled
      by_cases hvalid : isMonth month.toList = true
      · exact .of_fresh (hpath.trans (if_pos hvalid)) (by rwa [hinstalled.table])
      · have hnone : tablePath S d = none := hsafe.resolve_right fun h => hvalid (h month hinstalls)
        rw [Kept, hnone, hpath, if_neg hvalid]
        exact .inl rfl

variable (S decoder) in
/-- **No working table is taken away exactly when the installed month is one that a table name may have.** At every
point of a refresh, from any folder and with any answers and failures. -/
theorem folders_kept_iff (base : String) (now : DateTime) (d : Dir) (ev : Events) :
    (∀ s ∈ (refreshFrom S decoder base now d ev).1, Kept S decoder ev d s) ↔
      tablePath S d = none ∨ ∀ month, Installs S decoder base now d ev month → isMonth month.toList = true := by
  refine ⟨fun hkept => ?_, kept_of_valid⟩
  by_contra hlost
  rw [not_or] at hlost
  obtain ⟨month, hmonth⟩ := not_forall.1 hlost.2
  obtain ⟨hinstalls, hinvalid⟩ := Classical.not_imp.1 hmonth
  obtain ⟨s, hs, -, hnot⟩ := lost_of_invalid hlost.1 hinstalls hinvalid
  exact hnot (hkept s hs)

end Kept

/-! ## The year 10000 -/

def releaseCsv : String := "1.0.0.0,1.0.0.255,AU\n2001::,2001::f,JP\n"

/-- `releaseCsv`, compressed -/
def sampleGz : Bytes :=
  [0x1f, 0x8b, 0x08, 0x00, 0x00, 0x00, 0x00, 0x00, 0x02, 0x03, 0x33, 0xd4, 0x33, 0x00, 0x41, 0x1d, 0x43, 0x30,
    0x6d, 0x64, 0x6a, 0xaa, 0xe3, 0x18, 0xca, 0x65, 0x64, 0x60, 0x60, 0x68, 0x65, 0xa5, 0x03, 0xa1, 0xd2, 0x74,
    0xbc, 0x02, 0xb8, 0x00, 0xcd, 0x78, 0x5d, 0xeb, 0x27, 0x00, 0x00, 0x00]

def sampleDecoder (data : Bytes) : Except String String :=
  if data = sampleGz then .ok releaseCsv else .error "invalid gzip header"

def sampleTable : GeoTable :=
  ⟨[#v[0x41, 0x55], #v[0x4a, 0x50]], [⟨mapped (Lib.Bytes.toArray 4 [1, 0, 0, 0]), mapped #v[1, 0, 0, 255], 0⟩],
    [⟨octets #v[0x2001, 0, 0, 0, 0, 0, 0, 0], octets #v[0x2001, 0, 0, 0, 0, 0, 0, 0xf], 1⟩]⟩

def sampleBase : String := "https://download.db-ip.com/free"

/-- the first second of the year 10000 -/
def sampleNow : DateTime := ⟨253402300800, 10000, 1, "+10000-01-01T00:00:00Z", by decide⟩

def sampleBytes : Bytes := match encode sampleTable with
  | .ok bytes => bytes
  | .error _ => []

/-- the pointer of the month before, and the one of the sample run, with their texts -/
def sampleOld : GeoMeta :=
  ⟨"9999-12", tableName "9999-12", sourceOf sampleBase "9999-12", "9999-12-31T00:00:00Z", 1, 1, 2, 96⟩

def sampleNew : GeoMeta := newMeta sampleBase (monthKey sampleNow) sampleNow sampleBytes sampleTable

def sampleTail (month refreshedAt : String) : String :=
  "\",\n  \"file\": \"countries-" ++ month ++ ".bin\",\n  \"source\": \"" ++ sourceOf sampleBase month ++
    "\",\n  \"refreshed_at\": \"" ++ refreshedAt ++
    "\",\n  \"v4_ranges\": 1,\n  \"v6_ranges\": 1,\n  \"countries\": 2,\n  \"bytes\": 96\n\x7d"

def sampleText (month refreshedAt : String) : String :=
  "\x7b" ++ ("\n  \"month\": \"" ++ (month ++ sampleTail month refreshedAt))

theorem countable_geoMeta : Countable GeoMeta := by
  have hchar : Countable Char := Function.Injective.countable (f := Char.toNat) fun _ _ h => Char.toNat_inj.1 h
  have hstring : Countable String :=
    Function.Injective.countable (f := String.toList) fun _ _ h => String.toList_inj.1 h
  have hnumber : Countable UInt64 := Function.Injective.countable (f := UInt64.toNat) fun _ _ h => UInt64.toNat_inj.1 h
  refine Function.Injective.countable
    (f := fun m : GeoMeta =>
      (m.month, m.file, m.source, m.refreshedAt, m.v4Ranges, m.v6Ranges, m.countries, m.bytes)) ?_
  rintro ⟨⟩ ⟨⟩ h
  simpa using h

/-- the two texts of the sample run, and any other document by its number, after a zero byte -/
noncomputable def samplePrint (m : GeoMeta) : Bytes :=
  if m = sampleOld then utf8 (sampleText "9999-12" "9999-12-31T00:00:00Z")
  else if m = sampleNew then utf8 (sampleText "+10000-01" "+10000-01-01T00:00:00Z")
  else 0 :: List.replicate (countable_geoMeta.exists_injective_nat.choose m) 0

theorem toList_sampleText (month refreshedAt : String) : (sampleText month refreshedAt).toList =
    '\x7b' :: ("\n  \"month\": \"".toList ++ (month.toList ++ (sampleTail month refreshedAt).toList)) := by
  rw [sampleText, String.toList_append, String.toList_append, String.toList_append]
  rfl

theorem sampleText_ne : utf8 (sampleText "9999-12" "9999-12-31T00:00:00Z") ≠
    utf8 (sampleText "+10000-01" "+10000-01-01T00:00:00Z") := by
  intro h
  have htext := congrArg fromUtf8 h
  rw [fromUtf8_utf8, fromUtf8_utf8] at htext
  have hlist := congrArg String.toList (Option.some.inj htext)
  rw [toList_sampleText, toList_sampleText] at hlist
  have hmonth := List.append_cancel_left (List.cons.inj hlist).2
  exact absurd (congrArg List.head? hmonth) (by simp)

theorem sampleText_ne_number (month refreshedAt : String) (n : ℕ) :
    utf8 (sampleText month refreshedAt) ≠ 0 :: List.replicate n 0 := by
  intro h
  rw [utf8, toList_sampleText, List.flatMap_cons] at h
  have hhead : (0x7b : UInt8) = 0 := (List.cons.inj h).1
  exact absurd hhead (by decide)

theorem samplePrint_injective : Function.Injective samplePrint := by
  have hnumber := countable_geoMeta.exists_injective_nat.choose_spec
  intro a b h
  unfold samplePrint at h
  split_ifs at h with ha hb hb' ha' hb hb'
  · exact ha.trans hb.symm
  · exact absurd h sampleText_ne
  · exact absurd h (sampleText_ne_number _ _ _)
  · exact absurd h.symm sampleText_ne
  · exact ha'.trans hb'.symm
  · exact absurd h (sampleText_ne_number _ _ _)
  · exact absurd h.symm (sampleText_ne_number _ _ _)
  · exact absurd h.symm (sampleText_ne_number _ _ _)
  · have hlength := congrArg List.length h
    simp only [List.length_cons, List.length_replicate, Nat.add_right_cancel_iff] at hlength
    exact hnumber hlength

open Classical in
noncomputable def sampleParse (bytes : Bytes) : Option GeoMeta :=
  if h : ∃ m, samplePrint m = bytes then some h.choose else none

theorem sampleParse_print (m : GeoMeta) : sampleParse (samplePrint m) = some m := by
  have h : ∃ m', samplePrint m' = samplePrint m := ⟨m, rfl⟩
  rw [sampleParse, dif_pos h, samplePrint_injective h.choose_spec]

noncomputable def sampleSerde : Serde := ⟨sampleParse, samplePrint, sampleParse_print⟩

/-- the table of December 9999, one day old -/
noncomputable def sampleDir : Dir := fun name =>
  if name = metaFile then some (.file (samplePrint sampleOld) none)
  else if name = tableName "9999-12" then some (.file sampleBytes (some 253402214400))
  else none

/-- the release of the new month is served, and every file operation succeeds -/
def sampleEvents : Events :=
  ⟨.ok sampleGz, .error (.status 404), true, true, true, some 253402300800, [(tableName "9999-12", true)]⟩

theorem sample_parse : parseCsv releaseCsv = sampleTable := by decide

theorem sample_encode : encode sampleTable = .ok sampleBytes := rfl

theorem sample_build (source : String) : build sampleDecoder sampleGz source = .ok (sampleBytes, sampleTable) := by
  have hsmall : ¬ maxCsvBytes < releaseCsv.utf8ByteSize := by decide
  have hfull : ¬ (sampleTable.v4 = [] ∨ sampleTable.v6 = []) := by decide
  rw [build, gunzip, sampleDecoder, if_pos rfl]
  dsimp only
  rw [if_neg hsmall]
  dsimp only
  rw [sample_parse, if_neg hfull, sample_encode]

theorem sample_readMeta : readMeta sampleSerde sampleDir = some sampleOld := sampleParse_print _

theorem sample_tablePath : tablePath sampleSerde sampleDir = some (tableName "9999-12") := by
  have hname : sampleOld.file = tableName "9999-12" := rfl
  have hvalid : validTableName (tableName "9999-12") = true := by decide
  have hfile : sampleDir (tableName "9999-12") = some (.file sampleBytes (some 253402214400)) := by
    rw [sampleDir, if_neg (metaFile_ne _), if_pos rfl]
  rw [tablePath, sample_readMeta]
  dsimp only
  rw [hname, hvalid, hfile]
  simp [wellSized_encode sample_encode]

theorem sample_installs :
    Installs sampleSerde sampleDecoder sampleBase sampleNow sampleDir sampleEvents (monthKey sampleNow) where
  dirOk := rfl
  stale := by
    have hmonth : ¬ sampleOld.month = monthKey sampleNow := by decide
    rw [existing, sample_readMeta]
    split
    · simpa using hmonth
    · rfl
  built := ⟨sampleGz, sampleBytes, sampleTable, .current rfl, sample_build _⟩
  tableWritten := by
    have hname : tableName (monthKey sampleNow) ≠ tableName "9999-12" := by decide
    rw [sampleDir, if_neg (metaFile_ne _), if_neg hname]
    exact ⟨rfl, nofun⟩
  metaWritten := by
    rw [sampleDir, if_pos rfl]
    exact ⟨rfl, nofun⟩

/-- **In the year 10000 a working table is lost**: the refresh points at a file whose name is never accepted. -/
theorem lost_in_year_10000 :
    tablePath sampleSerde sampleDir = some (tableName "9999-12") ∧
      ∃ s ∈ (refreshFrom sampleSerde sampleDecoder sampleBase sampleNow sampleDir sampleEvents).1,
        tablePath sampleSerde s = none ∧ ¬ Kept sampleSerde sampleDecoder sampleEvents sampleDir s :=
  ⟨sample_tablePath, lost_of_invalid (by rw [sample_tablePath]; nofun) sample_installs (by decide)⟩

end EspectralClient.GeoRefresh
