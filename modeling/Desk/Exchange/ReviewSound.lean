import Desk.Exchange.Review

/-!
# What a review accepts

Rows in order, directories that are theirs, candidates that are what their rows
declare, and no artifact published anew under its version.
-/

namespace Desk

namespace Exchange

variable {e : Tools} {tree : Tree}

/-! ## The manifest -/

theorem checkRow_form {previous : String} {row : Row} (h : checkRow previous row = .ok ()) : row.form previous = true := by
  unfold checkRow at h
  by_cases hform : row.form previous = false
  · rw [if_pos hform] at h
    cases h
  · simpa using hform

theorem lt_of_form {previous : String} {row : Row} (h : row.form previous = true) : previous < row.id := by
  unfold Row.form at h
  simp only [Bool.and_eq_true, decide_eq_true_eq] at h
  exact h.1.1.1.1.1.2

/-- The rows of a manifest that is accepted are in the order of their identities, each of a directory. -/
theorem checkRows_ok {sets : Table (List String)} {previous : String} {rows : List Row}
    (h : checkRows sets previous rows = .ok ()) :
    (∀ row ∈ rows, previous < row.id) ∧ rows.Pairwise (fun a b => a.id < b.id) ∧
      ∀ row ∈ rows, ((sets.get? row.path).getD []).isEmpty = false := by
  induction rows generalizing previous with
  | nil => exact ⟨nofun, List.Pairwise.nil, nofun⟩
  | cons row rest ih =>
    unfold checkRows at h
    obtain ⟨_, hrow, h⟩ := bind_eq_ok.mp h
    have hlt := lt_of_form (checkRow_form hrow)
    obtain ⟨hsome, h⟩ := refuseWhen_bind_eq_ok.mp h
    obtain ⟨hall, hpairs, hsets⟩ := ih h
    refine ⟨fun r hr => ?_, List.pairwise_cons.mpr ⟨hall, hpairs⟩, fun r hr => ?_⟩
    · rcases List.mem_cons.mp hr with rfl | hr
      · exact hlt
      · exact lt_trans hlt (hall r hr)
    · rcases List.mem_cons.mp hr with rfl | hr
      · simpa using hsome
      · exact hsets r hr

/-! ## The directories -/

/-- A file of an entry's directory. -/
def entryFile (file : String) : Bool := file != "entries/README.md" && hasPrefix file "entries/"

/-- The files of a directory of an entry, as the tree lists them. -/
def directoryFiles (files : List String) (path : String) : List String :=
  files.filter fun file => entryFile file && directoryOf file == some path

/-- Each directory has the files there are of it, and there is no other directory. -/
theorem entrySets_ok {sets sets' : Table (List String)} {files : List String} (h : entrySets tree sets files = .ok sets') :
    ∀ path, (sets'.get? path).getD [] = (sets.get? path).getD [] ++ directoryFiles files path ∧
      (sets'.has path = true → sets.has path = true ∨ directoryFiles files path ≠ []) := by
  induction files generalizing sets with
  | nil =>
    cases h
    exact fun path => ⟨(List.append_nil _).symm, Or.inl⟩
  | cons file rest ih =>
    unfold entrySets at h
    have hskip : entryFile file = false → ∀ path, directoryFiles (file :: rest) path = directoryFiles rest path := by
      intro hfile path
      exact List.filter_cons_of_neg (by rw [hfile]; exact Bool.false_ne_true)
    by_cases hreadme : file = "entries/README.md"
    · rw [if_pos hreadme] at h
      obtain ⟨raw, -, h⟩ := bind_eq_ok.mp h
      obtain ⟨-, h⟩ := refuseWhen_bind_eq_ok.mp h
      intro path
      rw [hskip (by rw [entryFile, hreadme]; rfl)]
      exact ih h path
    rw [if_neg hreadme] at h
    by_cases hstart : hasPrefix file "entries/" = false
    · rw [if_pos hstart] at h
      intro path
      rw [hskip (by rw [entryFile, hstart, Bool.and_false])]
      exact ih h path
    rw [if_neg hstart] at h
    cases hdir : directoryOf file with
    | none =>
      rw [hdir] at h
      cases h
    | some dir =>
      rw [hdir] at h
      have hfile : entryFile file = true := by
        rw [entryFile, Bool.not_eq_false _ |>.mp hstart, Bool.and_true]
        exact bne_iff_ne.mpr hreadme
      intro path
      obtain ⟨hget, hhas⟩ := ih h path
      by_cases hpath : path = dir
      · have hcons : directoryFiles (file :: rest) path = file :: directoryFiles rest path :=
          List.filter_cons_of_pos (by rw [hfile, hdir, hpath]; simp)
        rw [hcons]
        refine ⟨?_, fun _ => Or.inr (List.cons_ne_nil _ _)⟩
        rw [hget, hpath, Table.get?_set_self, Option.getD_some, List.append_assoc]
        rfl
      · have hcons : directoryFiles (file :: rest) path = directoryFiles rest path :=
          List.filter_cons_of_neg (by
            rw [hfile, hdir, Bool.true_and, beq_iff_eq]
            exact fun heq => hpath (Option.some.inj heq).symm)
        rw [hcons]
        rw [Table.get?_set_ne _ _ hpath] at hget
        refine ⟨hget, fun hin => ?_⟩
        rcases hhas hin with hold | hnew
        · rw [Table.has, Table.get?_set_ne _ _ hpath] at hold
          exact Or.inl hold
        · exact Or.inr hnew

/-! ## The candidates -/

/-- What is offered is what its row declares: its files, each as the tree has it, with the digests declared. -/
structure Declared (tree : Tree) (files : List String) (c : Candidate) : Prop where
  directory : (directoryFiles files c.row.path).Perm ((wantNames c.row).map fun name => c.row.path ++ "/" ++ name)
  names : ∀ name, c.files.has name = true ↔ name ∈ wantNames c.row
  contents : ∀ name raw, c.files.get? name = some raw → tree.Read (c.row.path ++ "/" ++ name) (nameLimit name) = .ok raw
  entry : Digest ((c.files.get? "entry.json").getD []) = c.row.entryDigest
  dialect : Digest ((c.files.get? "dialect.json").getD []) = c.row.dialectDigest
  document : Digest c.document = c.digest ∧ c.digest = c.entry.dialect.digest
  fixtures : c.row.kind = "dialect" → ∀ fixture ∈ c.entry.fixtures.getD [],
    Digest ((c.files.get? (fixture.path ++ "/preparation.json")).getD []) = fixture.preparationDigest

theorem readNames_ok {path : String} {retained : Nat} {files files' : Table (List UInt8)} {names : List String}
    (h : readNames tree path retained files names = .ok files') :
    ∀ name, (files'.has name = true ↔ files.has name = true ∨ name ∈ names) ∧
      ∀ raw, files'.get? name = some raw →
        files.get? name = some raw ∨ tree.Read (path ++ "/" ++ name) (nameLimit name) = .ok raw := by
  induction names generalizing retained files with
  | nil =>
    cases h
    exact fun name => ⟨⟨Or.inl, fun h => h.resolve_right List.not_mem_nil⟩, fun _ hraw => Or.inl hraw⟩
  | cons first rest ih =>
    unfold readNames at h
    obtain ⟨raw, hread, h⟩ := bind_eq_ok.mp h
    obtain ⟨chars, -, h⟩ := bind_eq_ok.mp h
    obtain ⟨-, h⟩ := refuseWhen_bind_eq_ok.mp h
    obtain ⟨-, h⟩ := refuseWhen_bind_eq_ok.mp h
    obtain ⟨-, h⟩ := refuseWhen_bind_eq_ok.mp h
    intro name
    obtain ⟨hhas, hget⟩ := ih h name
    refine ⟨?_, fun raw' hraw' => ?_⟩
    · rw [hhas, Table.has, Table.get?_set, List.mem_cons]
      by_cases hname : name = first
      · rw [if_pos hname]
        exact ⟨fun _ => Or.inr (Or.inl hname), fun _ => Or.inl rfl⟩
      · rw [if_neg hname, Table.has]
        exact ⟨fun h => h.imp_right Or.inr, fun h => h.imp_right fun h => h.resolve_left hname⟩
    · rcases hget raw' hraw' with hold | hnew
      · rw [Table.get?_set] at hold
        split at hold
        · next hname =>
          cases hold
          exact Or.inr (hname ▸ hread)
        · exact Or.inl hold
      · exact Or.inr hnew

theorem readFiles_ok {row : Row} {files : List String} {read : Table (List UInt8)} (h : readFiles tree row files = .ok read) :
    files.Perm ((wantNames row).map fun name => row.path ++ "/" ++ name) ∧
      (∀ name, read.has name = true ↔ name ∈ wantNames row) ∧
      (∀ name raw, read.get? name = some raw → tree.Read (row.path ++ "/" ++ name) (nameLimit name) = .ok raw) ∧
      Digest ((read.get? "entry.json").getD []) = row.entryDigest ∧
      Digest ((read.get? "dialect.json").getD []) = row.dialectDigest := by
  unfold readFiles at h
  dsimp only at h
  obtain ⟨hsame, h⟩ := refuseWhen_bind_eq_ok.mp h
  obtain ⟨read', hread, h⟩ := bind_eq_ok.mp h
  obtain ⟨hdigest, h⟩ := refuseWhen_bind_eq_ok.mp h
  cases h
  rw [not_or, not_not, not_not] at hdigest
  have hperm : (sorted (wantNames row)).Perm (wantNames row) := List.perm_insertionSort _ _
  refine ⟨?_, fun name => ?_, fun name raw hraw => ?_, hdigest⟩
  · have hsorted : (sorted files).Perm files := List.perm_insertionSort _ _
    rw [not_not.mp hsame] at hsorted
    exact hsorted.symm.trans (hperm.map _)
  · rw [(readNames_ok hread name).1, hperm.mem_iff]
    simp [Table.has]
  · rcases (readNames_ok hread name).2 raw hraw with hold | hnew
    · rw [Table.get?_empty] at hold
      cases hold
    · exact hnew

theorem replayEach_ok {files : Table (List UInt8)} {declared : List Fixture} {replay : ReplayInput → Except String (List UInt8)}
    {reports reports' : Table (List UInt8)} {fixtures : List EntryFixture}
    (h : replayEach files declared replay reports fixtures = .ok reports') :
    ∀ fixture ∈ fixtures, Digest (replayInput files fixture).preparation = fixture.preparationDigest := by
  induction fixtures generalizing reports with
  | nil => nofun
  | cons first rest ih =>
    unfold replayEach at h
    obtain ⟨-, h⟩ := refuseWhen_bind_eq_ok.mp h
    obtain ⟨-, h⟩ := refuseWhen_bind_eq_ok.mp h
    obtain ⟨hdigest, h⟩ := refuseWhen_bind_eq_ok.mp h
    obtain ⟨raw, -, h⟩ := bind_eq_ok.mp h
    obtain ⟨-, h⟩ := refuseWhen_bind_eq_ok.mp h
    intro fixture hin
    rcases List.mem_cons.mp hin with rfl | hin
    · exact not_not.mp hdigest
    · exact ih h fixture hin

theorem checkFixtures_ok {row : Row} {entry : Preset} {files reports : Table (List UInt8)}
    (h : checkFixtures e row entry files = .ok reports) (hkind : row.kind = "dialect") :
    ∀ fixture ∈ entry.fixtures.getD [],
      Digest ((files.get? (fixture.path ++ "/preparation.json")).getD []) = fixture.preparationDigest := by
  unfold checkFixtures at h
  rw [if_neg (not_not.mpr hkind)] at h
  obtain ⟨_, _, h⟩ := bind_eq_ok.mp h
  obtain ⟨replay, _, h⟩ := bind_eq_ok.mp h
  unfold replayFixtures at h
  split at h
  · cases h
  · exact replayEach_ok h

theorem checkDocument_ok {entry : Preset} {raw document : List UInt8} {digest : String}
    (h : checkDocument e entry raw = .ok (document, digest)) : Digest document = digest ∧ digest = entry.dialect.digest := by
  unfold checkDocument at h
  split at h
  · cases h
  · obtain ⟨⟨document', digest'⟩, _, h⟩ := bind_eq_ok.mp h
    obtain ⟨hdigest, h⟩ := refuseWhen_bind_eq_ok.mp h
    cases h
    rw [not_or, not_not, not_not] at hdigest
    exact ⟨hdigest.2, hdigest.1⟩

/-- The spec of a candidate's review. -/
theorem reviewPreset_ok {row : Row} {files : List String} {c : Candidate}
    (h : reviewPreset e tree row (directoryFiles files row.path) = .ok c) : c.row = row ∧ Declared tree files c := by
  unfold reviewPreset at h
  obtain ⟨read, hread, h⟩ := bind_eq_ok.mp h
  obtain ⟨entry, _, h⟩ := bind_eq_ok.mp h
  obtain ⟨_, _, h⟩ := bind_eq_ok.mp h
  obtain ⟨⟨document, digest⟩, hdocument, h⟩ := bind_eq_ok.mp h
  obtain ⟨reports, hreports, h⟩ := bind_eq_ok.mp h
  cases h
  obtain ⟨hperm, hnames, hcontents, hentry, hdialect⟩ := readFiles_ok hread
  exact ⟨rfl, hperm, hnames, hcontents, hentry, hdialect, checkDocument_ok hdocument, checkFixtures_ok hreports⟩

/-- Every candidate was reviewed, and their files are bounded all together. -/
theorem reviewRows_ok {sets : Table (List String)} {total : Nat} {rows : List Row} {cs : List Candidate} {us : List Unavailable}
    (h : reviewRows e tree sets total rows = .ok (cs, us)) (htotal : total ≤ fileLimit) :
    (∀ c ∈ cs, ∃ row ∈ rows, reviewPreset e tree row ((sets.get? row.path).getD []) = .ok c) ∧
      total + (cs.map Candidate.bytes).sum ≤ fileLimit := by
  induction rows generalizing total cs us with
  | nil =>
    cases h
    refine ⟨fun c hc => absurd hc List.not_mem_nil, ?_⟩
    rw [List.map_nil, List.sum_nil, Nat.add_zero]
    exact htotal
  | cons row rest ih =>
    unfold reviewRows at h
    have hlater : ∀ {c : Candidate}, (∃ r ∈ rest, reviewPreset e tree r ((sets.get? r.path).getD []) = .ok c) →
        ∃ r ∈ row :: rest, reviewPreset e tree r ((sets.get? r.path).getD []) = .ok c :=
      fun ⟨r, hr, hc⟩ => ⟨r, List.mem_cons_of_mem _ hr, hc⟩
    split at h
    · obtain ⟨⟨cs', us'⟩, hrest, h⟩ := bind_eq_ok.mp h
      cases h
      obtain ⟨hall, hsum⟩ := ih hrest htotal
      exact ⟨fun c hc => hlater (hall c hc), hsum⟩
    · split at h
      · obtain ⟨⟨cs', us'⟩, hrest, h⟩ := bind_eq_ok.mp h
        cases h
        obtain ⟨hall, hsum⟩ := ih hrest htotal
        exact ⟨fun c hc => hlater (hall c hc), hsum⟩
      · next c hreview =>
        obtain ⟨hbound, h⟩ := refuseWhen_bind_eq_ok.mp h
        obtain ⟨⟨cs', us'⟩, hrest, h⟩ := bind_eq_ok.mp h
        cases h
        obtain ⟨hall, hsum⟩ := ih hrest (Nat.le_of_not_lt hbound)
        refine ⟨fun c' hc' => ?_, ?_⟩
        · rcases List.mem_cons.mp hc' with rfl | hc'
          · exact ⟨row, List.mem_cons_self, hreview⟩
          · exact hlater (hall c' hc')
        · rw [List.map_cons, List.sum_cons, ← Nat.add_assoc]
          exact hsum

/-! ## What an entry is published as -/

/-- The metadata of an entry of format 3. -/
def entryMembers (tree : Tree) (row : Row) : Option (List (String × Json)) :=
  (((tree.Read (row.path ++ "/entry.json") (64 * 2 ^ 10)).toOption.bind strict).bind members).filter entryFormat3

/-- The artifact an entry of format 3 names by a named reference, and the canonical digest of its dialect. -/
def namedArtifact (e : Tools) (tree : Tree) (row : Row) : Option (ArtifactIdentity × String) := do
  let ms ← entryMembers tree row
  let reference ← (ms.lookup "dialect").bind members
  let _ ← reference.lookup "formatVersion"
  let artifact ← (ms.lookup "artifact").bind readArtifact
  let raw ← (tree.Read (row.path ++ "/dialect.json") (128 * 2 ^ 10)).toOption
  let (_, digest) ← (← e.check) raw |>.toOption
  return (artifact, digest)

/-- The upgrade notes of an entry of format 3. -/
def upgradeNotes (tree : Tree) (row : Row) : Option (Table String) := do
  let ms ← entryMembers tree row
  (ms.lookup "upgrade").bind texts

/-- The entry of a row has the digest the row records. -/
def EntryHeld (tree : Tree) (row : Row) : Prop :=
  ∃ metadata, tree.Read (row.path ++ "/entry.json") (64 * 2 ^ 10) = .ok metadata ∧ Digest metadata = row.entryDigest

/-- What an identity tells of its row. -/
structure Tells (e : Tools) (tree : Tree) (row : Row) (c : Candidate) : Prop where
  artifact : namedArtifact e tree row = c.entry.artifact.map fun artifact => (artifact, c.digest)
  upgrade : upgradeNotes tree row = c.entry.upgrade
  id : c.entry.upgrade.isSome = true → c.entry.id = row.id
  held : EntryHeld tree row

theorem field_eq_some {α : Type} {ms : List (String × Json)} {name : String} {read : Json → Option α} {v : Option α}
    (h : field ms name read = some v) : v = (ms.lookup name).bind read := by
  unfold field at h
  cases hl : ms.lookup name with
  | none =>
    rw [hl] at h
    cases h
    rfl
  | some j =>
    rw [hl] at h
    obtain ⟨a, ha, rfl⟩ := Option.map_eq_some_iff.mp h
    exact ha.symm

theorem namedIdentity_ok {row : Row} {ms reference : List (String × Json)} {c c' : Candidate} (hrow : c.row = row)
    (hms : entryMembers tree row = some ms) (href : (ms.lookup "dialect").bind members = some reference)
    (hnamed : (reference.lookup "formatVersion").isSome = true) (h : namedIdentity e tree ms reference c = .ok c') :
    namedArtifact e tree row = c'.entry.artifact.map (fun artifact => (artifact, c'.digest)) ∧
      c'.entry.upgrade = c.entry.upgrade ∧ c'.entry.id = c.entry.id := by
  unfold namedIdentity at h
  split at h
  · next dialect artifact hdialect hartifact =>
    obtain ⟨-, h⟩ := refuseWhen_bind_eq_ok.mp h
    obtain ⟨-, h⟩ := refuseWhen_bind_eq_ok.mp h
    obtain ⟨raw, hraw, h⟩ := bind_eq_ok.mp h
    obtain ⟨-, h⟩ := refuseWhen_bind_eq_ok.mp h
    dsimp only at h
    obtain ⟨_, -, h⟩ := bind_eq_ok.mp h
    obtain ⟨check, hcheck, h⟩ := bind_eq_ok.mp h
    obtain ⟨⟨document, digest⟩, hchecked, h⟩ := bind_eq_ok.mp h
    dsimp only at h
    obtain ⟨-, h⟩ := refuseWhen_bind_eq_ok.mp h
    cases h
    obtain ⟨v, hv⟩ := Option.isSome_iff_exists.mp hnamed
    rw [orRefuse_eq_ok] at hcheck
    rw [hrow] at hraw
    refine ⟨?_, rfl, rfl⟩
    simp [namedArtifact, hms, href, hv, hartifact, hraw, hcheck, hchecked, Except.toOption, -Nat.reducePow, -Nat.reduceMul]
  · cases h

/-- The spec of an identity. -/
theorem catalogIdentity_ok {row : Row} {metadata : List UInt8} {current : Bool} {c : Candidate}
    (hread : tree.Read (row.path ++ "/entry.json") (64 * 2 ^ 10) = .ok metadata)
    (h : catalogIdentity e tree row metadata current = .ok c) : Tells e tree row c := by
  unfold catalogIdentity at h
  split at h
  · cases h
  next hdigest =>
  have hheld : EntryHeld tree row := ⟨metadata, hread, not_not.mp hdigest⟩
  split at h
  · cases h
  next ms hms =>
  have hmembers : entryMembers tree row = if entryFormat3 ms = true then some ms else none := by
    unfold entryMembers
    rw [hread]
    show ((strict metadata).bind members).filter entryFormat3 = _
    rw [hms]
    rfl
  split at h
  · next hformat =>
    cases h
    have hnone : entryMembers tree row = none := by rw [hmembers, hformat]; rfl
    exact ⟨by rw [namedArtifact, hnone]; rfl, by rw [upgradeNotes, hnone]; rfl, nofun, hheld⟩
  · next hformat =>
    have hsome : entryMembers tree row = some ms := by
      rw [hmembers, if_pos (by simpa using hformat)]
    obtain ⟨upgrade, hupgrade, h⟩ := bind_eq_ok.mp h
    obtain ⟨reference, hreference, h⟩ := bind_eq_ok.mp h
    unfold memberOr at hupgrade hreference
    rw [orRefuse_eq_ok] at hupgrade hreference
    have hnotes : upgradeNotes tree row = upgrade := by
      rw [upgradeNotes, hsome, field_eq_some hupgrade]
      rfl
    have href := field_eq_some hreference
    dsimp only at h
    split at h
    · next hnamed =>
      cases hr : reference with
      | none =>
        rw [hr] at hnamed
        cases hnamed
      | some ref =>
        rw [hr] at hnamed h href
        obtain ⟨hartifact, hsame, hid⟩ := namedIdentity_ok rfl hsome href.symm hnamed h
        exact ⟨hartifact, hnotes.trans hsame.symm, fun _ => hid, hheld⟩
    · next hnamed =>
      split at h
      · cases h
      · cases h
        refine ⟨?_, hnotes, fun _ => rfl, hheld⟩
        have hnone : ∀ ref, (ms.lookup "dialect").bind members = some ref → ref.lookup "formatVersion" = none := by
          intro ref hrf
          rw [← href] at hrf
          rw [hrf, Option.getD_some, Bool.not_eq_true, Option.isSome_eq_false_iff, Option.isNone_iff_eq_none] at hnamed
          exact hnamed
        rw [namedArtifact, hsome]
        cases hrf : (ms.lookup "dialect").bind members with
        | none => simp [hrf]
        | some ref => simp [hrf, hnone ref hrf]

/-! ## History -/

/-- What a step through the entries `items` adds to what is seen: their artifacts, and their digests. -/
structure Advances (e : Tools) (items : List (Tree × Row)) (seen seen' : Seen) : Prop where
  kept : seen.pairs.Extends seen'.pairs
  pinned : ∀ i ∈ items, ∀ artifact digest, namedArtifact e i.1 i.2 = some (artifact, digest) →
    seen'.pairs.get? artifact.key = some digest
  recorded : ∀ id digest, seen'.holds id digest = true → seen.holds id digest = true ∨
    ∃ i ∈ items, i.2.id = id ∧ i.2.entryDigest = digest ∧ EntryHeld i.1 i.2

theorem Advances.nil (seen : Seen) : Advances e [] seen seen := ⟨Table.Extends.refl _, nofun, fun _ _ => Or.inl⟩

theorem Advances.append {items items' : List (Tree × Row)} {a b c : Seen} (h : Advances e items a b)
    (h' : Advances e items' b c) : Advances e (items ++ items') a c where
  kept := h.kept.trans h'.kept
  pinned i hi artifact digest hnamed := by
    rcases List.mem_append.mp hi with hi | hi
    · exact h'.kept _ _ (h.pinned i hi artifact digest hnamed)
    · exact h'.pinned i hi artifact digest hnamed
  recorded id digest hholds := by
    rcases h'.recorded id digest hholds with hb | ⟨i, hi, hrest⟩
    · rcases h.recorded id digest hb with ha | ⟨i, hi, hrest⟩
      · exact Or.inl ha
      · exact Or.inr ⟨i, List.mem_append_left _ hi, hrest⟩
    · exact Or.inr ⟨i, List.mem_append_right _ hi, hrest⟩

/-- The spec of a pin. -/
theorem pinArtifact_ok {pairs pairs' : Table String} {c : Candidate} (h : pinArtifact pairs c = .ok pairs') :
    pairs.Extends pairs' ∧ ∀ artifact, c.entry.artifact = some artifact → pairs'.get? artifact.key = some c.digest := by
  unfold pinArtifact at h
  split at h
  · next hnone =>
    cases h
    refine ⟨Table.Extends.refl _, fun artifact hsome => ?_⟩
    rw [hnone] at hsome
    cases hsome
  · next artifact hsome =>
    split at h
    · cases h
    · next hany =>
      cases h
      refine ⟨fun k v hv => ?_, fun artifact' hsome' => ?_⟩
      · by_cases hk : k = artifact.key
        · -- what is held there is the digest pinned
          rw [hk] at hv ⊢
          rw [hv, Option.any_some, Bool.not_eq_true, bne_eq_false_iff_eq] at hany
          rw [Table.get?_set_self, hany]
        · rw [Table.get?_set_ne _ _ hk]
          exact hv
      · rw [hsome] at hsome'
        cases hsome'
        exact Table.get?_set_self _ _ _

theorem holds_record {seen : Seen} {pairs : Table String} {retained : Nat} {id digest id' digest' : String}
    (h : Seen.holds ⟨pairs, seen.record id digest, retained⟩ id' digest' = true) :
    seen.holds id' digest' = true ∨ id = id' ∧ digest = digest' := by
  unfold Seen.holds Seen.record at h
  dsimp only at h
  rw [Table.get?_set] at h
  by_cases hid : id' = id
  · rw [if_pos hid, Option.any_some, Table.has, Table.get?_set] at h
    by_cases hdigest : digest' = digest
    · exact Or.inr ⟨hid.symm, hdigest.symm⟩
    · rw [if_neg hdigest] at h
      cases hget : seen.entries.get? id with
      | none =>
        rw [hget] at h
        cases h
      | some held =>
        rw [hget] at h
        left
        rw [Seen.holds, hid, hget]
        exact h
  · rw [if_neg hid] at h
    exact Or.inl h

theorem historicalRow_ok {previous : String} {row : Row} {seen seen' : Seen}
    (h : historicalRow e tree previous row seen = .ok seen') : Advances e [(tree, row)] seen seen' := by
  unfold historicalRow at h
  obtain ⟨-, h⟩ := refuseWhen_bind_eq_ok.mp h
  obtain ⟨metadata, hread, h⟩ := bind_eq_ok.mp h
  obtain ⟨-, h⟩ := refuseWhen_bind_eq_ok.mp h
  obtain ⟨-, h⟩ := refuseWhen_bind_eq_ok.mp h
  obtain ⟨c, hc, h⟩ := bind_eq_ok.mp h
  obtain ⟨pairs, hpairs, h⟩ := bind_eq_ok.mp h
  cases h
  have htells := catalogIdentity_ok hread hc
  obtain ⟨hkept, hpin⟩ := pinArtifact_ok hpairs
  refine ⟨hkept, fun i hi artifact digest hnamed => ?_, fun id digest hholds => ?_⟩
  · rw [List.mem_singleton.mp hi, htells.artifact] at hnamed
    obtain ⟨artifact', hsome, heq⟩ := Option.map_eq_some_iff.mp hnamed
    cases heq
    exact hpin _ hsome
  · rcases holds_record hholds with hold | ⟨hid, hdigest⟩
    · exact Or.inl hold
    · exact Or.inr ⟨(tree, row), List.mem_singleton_self _, hid, hdigest, htells.held⟩

theorem historicalRows_ok {previous : String} {rows : List Row} {seen seen' : Seen}
    (h : historicalRows e tree previous rows seen = .ok seen') : Advances e (rows.map fun row => (tree, row)) seen seen' := by
  induction rows generalizing previous seen with
  | nil =>
    cases h
    exact Advances.nil _
  | cons row rest ih =>
    unfold historicalRows at h
    obtain ⟨next, hrow, h⟩ := bind_eq_ok.mp h
    exact (historicalRow_ok hrow).append (ih h)

/-- The rows of a release. -/
def releaseRows (tree : Tree) : List Row := ((tree.Read "manifest.json" (2 ^ 20)).toOption.bind readManifest).getD []

def releaseEntries (tree : Tree) : List (Tree × Row) := (releaseRows tree).map fun row => (tree, row)

theorem releaseRows_eq {raw : List UInt8} {rows : List Row} (hread : tree.Read "manifest.json" (2 ^ 20) = .ok raw)
    (hrows : readManifest raw = some rows) : releaseRows tree = rows := by
  rw [releaseRows, hread]
  show (readManifest raw).getD [] = rows
  rw [hrows]
  rfl

theorem historicalReleases_ok {tag : String} {prior : List HistoricalTree} {seen seen' : Seen}
    (h : historicalReleases e tag prior seen = .ok seen') :
    Advances e (prior.flatMap fun release => releaseEntries release.tree) seen seen' := by
  induction prior generalizing seen with
  | nil =>
    cases h
    exact Advances.nil _
  | cons release rest ih =>
    unfold historicalReleases at h
    obtain ⟨next, hrelease, h⟩ := bind_eq_ok.mp h
    unfold historicalRelease at hrelease
    obtain ⟨-, hrelease⟩ := refuseWhen_bind_eq_ok.mp hrelease
    obtain ⟨raw, hraw, hrelease⟩ := bind_eq_ok.mp hrelease
    obtain ⟨-, hrelease⟩ := refuseWhen_bind_eq_ok.mp hrelease
    obtain ⟨rows, hrows, hrelease⟩ := bind_eq_ok.mp hrelease
    rw [orRefuse_eq_ok] at hrows
    have hfirst := historicalRows_ok hrelease
    rw [← releaseRows_eq hraw hrows] at hfirst
    -- the bytes read are no entry
    have hsame : Advances e (releaseEntries release.tree) seen next := ⟨hfirst.kept, hfirst.pinned, hfirst.recorded⟩
    exact hsame.append (ih h)

/-- The current entries: each artifact is pinned beside the earlier ones, each note names a digest that is held. -/
theorem checkCurrent_ok {seen : Seen} {pairs : Table String} {cs : List Candidate} (h : checkCurrent seen pairs cs = .ok ()) :
    (∀ c ∈ cs, notesHold seen c = true) ∧ ∃ pairs', pairs.Extends pairs' ∧
      ∀ c ∈ cs, ∀ artifact, c.entry.artifact = some artifact → pairs'.get? artifact.key = some c.digest := by
  induction cs generalizing pairs with
  | nil =>
    exact ⟨fun c hc => absurd hc List.not_mem_nil, pairs, Table.Extends.refl _, fun c hc => absurd hc List.not_mem_nil⟩
  | cons c rest ih =>
    unfold checkCurrent at h
    obtain ⟨next, hpin, h⟩ := bind_eq_ok.mp h
    obtain ⟨hnotes, h⟩ := refuseWhen_bind_eq_ok.mp h
    obtain ⟨hkept, hc⟩ := pinArtifact_ok hpin
    obtain ⟨hall, last, hlater, hrest⟩ := ih h
    refine ⟨fun c' hc' => ?_, last, hkept.trans hlater, fun c' hc' artifact hsome => ?_⟩
    · rcases List.mem_cons.mp hc' with rfl | hc'
      · simpa using hnotes
      · exact hall c' hc'
    · rcases List.mem_cons.mp hc' with rfl | hc'
      · exact hlater _ _ (hc artifact hsome)
      · exact hrest c' hc' artifact hsome

theorem identities_ok {rows : List Row} {cs : List Candidate} (h : identities e tree rows = .ok cs) :
    List.Forall₂ (Tells e tree) rows cs := by
  induction rows generalizing cs with
  | nil =>
    cases h
    exact List.Forall₂.nil
  | cons row rest ih =>
    unfold identities at h
    obtain ⟨metadata, hread, h⟩ := bind_eq_ok.mp h
    obtain ⟨c, hc, h⟩ := bind_eq_ok.mp h
    obtain ⟨cs', hcs, h⟩ := bind_eq_ok.mp h
    cases h
    exact List.Forall₂.cons (catalogIdentity_ok hread hc) (ih hcs)

/-- The entries of some releases publish no artifact twice under one version, and no other content for it. -/
def NeverReidentified (e : Tools) (items : List (Tree × Row)) : Prop :=
  ∀ i ∈ items, ∀ j ∈ items, ∀ artifact digest digest', namedArtifact e i.1 i.2 = some (artifact, digest) →
    namedArtifact e j.1 j.2 = some (artifact, digest') → digest = digest'

/-- The spec of the history's check: nothing is named or noted, or the history holds. -/
theorem checkCatalogHistory_ok {tree : CatalogTree} {out : Release} {rows : List Row} {current : List Candidate} {pins : List Pin}
    (hrows : releaseRows tree.toTree = rows) (hcurrent : List.Forall₂ (Tells e tree.toTree) rows current)
    (h : checkCatalogHistory e tree out current = .ok pins) :
    (∀ row ∈ rows, namedArtifact e tree.toTree row = none ∧ upgradeNotes tree.toTree row = none) ∨
      ∃ releases prior, tree.PriorReleases = some releases ∧ releases out.tag = .ok prior ∧
        NeverReidentified e (releaseEntries tree.toTree ++ prior.flatMap fun release => releaseEntries release.tree) ∧
        ∀ row ∈ rows, ∀ notes digest, upgradeNotes tree.toTree row = some notes → notes.has digest = true →
          ∃ release ∈ prior, ∃ row' ∈ releaseRows release.tree,
            row'.id = row.id ∧ row'.entryDigest = digest ∧ EntryHeld release.tree row' := by
  have htold : ∀ row ∈ rows, ∃ c ∈ current, Tells e tree.toTree row c := by
    intro row hrow
    obtain ⟨n, hn, rfl⟩ := List.getElem_of_mem hrow
    exact ⟨current.get ⟨n, hcurrent.length_eq ▸ hn⟩, List.get_mem _ _, hcurrent.get hn (hcurrent.length_eq ▸ hn)⟩
  unfold checkCatalogHistory at h
  by_cases hneeded : needed current = false
  · left
    intro row hrow
    obtain ⟨c, hc, htells⟩ := htold row hrow
    have hnone := List.any_eq_false.mp hneeded c hc
    rw [Bool.or_eq_true, not_or, Bool.not_eq_true, Bool.not_eq_true, Option.isSome_eq_false_iff, Option.isSome_eq_false_iff,
      Option.isNone_iff_eq_none, Option.isNone_iff_eq_none] at hnone
    rw [htells.artifact, htells.upgrade, hnone.1, hnone.2]
    exact ⟨rfl, rfl⟩
  · right
    rw [if_neg hneeded] at h
    split at h
    · cases h
    next releases hreleases =>
    obtain ⟨prior, hprior, h⟩ := bind_eq_ok.mp h
    obtain ⟨-, h⟩ := refuseWhen_bind_eq_ok.mp h
    obtain ⟨seen, hseen, h⟩ := bind_eq_ok.mp h
    obtain ⟨_, hcheck, -⟩ := bind_eq_ok.mp h
    have hadvances := historicalReleases_ok hseen
    obtain ⟨hnotes, pairs, hkept, hpinned⟩ := checkCurrent_ok hcheck
    refine ⟨releases, prior, hreleases, hprior, ?_, fun row hrow notes digest hsome hhas => ?_⟩
    · -- every artifact is pinned in the pairs at the end
      have hall : ∀ i ∈ releaseEntries tree.toTree ++ prior.flatMap fun release => releaseEntries release.tree,
          ∀ artifact digest, namedArtifact e i.1 i.2 = some (artifact, digest) → pairs.get? artifact.key = some digest := by
        intro i hi artifact digest hnamed
        rcases List.mem_append.mp hi with hi | hi
        · obtain ⟨row, hrow, rfl⟩ := List.mem_map.mp hi
          obtain ⟨c, hc, htells⟩ := htold row (hrows ▸ hrow)
          rw [htells.artifact] at hnamed
          obtain ⟨artifact', hsome, heq⟩ := Option.map_eq_some_iff.mp hnamed
          cases heq
          exact hpinned c hc _ hsome
        · exact hkept _ _ (hadvances.pinned i hi artifact digest hnamed)
      intro i hi j hj artifact digest digest' hd hd'
      have heq := (hall i hi artifact digest hd).symm.trans (hall j hj artifact digest' hd')
      exact Option.some.inj heq
    · obtain ⟨c, hc, htells⟩ := htold row hrow
      rw [htells.upgrade] at hsome
      obtain ⟨note, hnote⟩ := Table.has_eq_true.mp hhas
      have hholds := hnotes c hc
      rw [notesHold, hsome, Option.getD_some, Table.all_iff] at hholds
      rcases hadvances.recorded _ _ (hholds digest note hnote) with hempty | ⟨i, hi, hid, hdigest, hheld⟩
      · rw [Seen.holds, Table.get?_empty] at hempty
        cases hempty
      · obtain ⟨release, hrelease, hi⟩ := List.mem_flatMap.mp hi
        obtain ⟨row', hrow', rfl⟩ := List.mem_map.mp hi
        exact ⟨release, hrelease, row', hrow', hid.trans (htells.id (by rw [hsome]; rfl)), hdigest, hheld⟩

/-- A release that publishes one artifact, with a dialect of its own. -/
def namingTree (dialect : List UInt8) : Tree where
  Files := .ok []
  Read path _ := .ok (
    if path = "manifest.json" then bytesOf "[\x7b\"id\":\"a.b\",\"path\":\"e\"\x7d]"
    else if path = "e/entry.json" then
      bytesOf "\x7b\"entryVersion\":3,\"dialect\":\x7b\"formatVersion\":\"2.0.0\"\x7d,\"artifact\":\x7b\"id\":\"a\",\"version\":\"1\"\x7d\x7d"
    else dialect)

def namedRow : Row := ⟨"a.b", "", "e", "", "", "", none, ["id", "path"]⟩

def namingReleases : List HistoricalTree :=
  [⟨"v1.0.0", "", namingTree []⟩, ⟨"v2.0.0", "", namingTree [0]⟩]

/-- A catalog without entries, after two releases that publish an artifact apart. -/
def emptiedCatalog : CatalogTree where
  Files := .ok ["entries/README.md", "manifest.json"]
  Read path _ := .ok (if path = "manifest.json" then bytesOf "[]" else [])
  PriorReleases := some fun _ => .ok namingReleases

def sampleTools : Tools where
  check := some fun raw => .ok ([], if raw = [] then "first" else "second")
  replay := none
  scheme := fun _ => none

def sampleCommit : String := "aaaaaaaaaaaaaaaaaaaaaaaaaaaaaaaaaaaaaaaa"

theorem reviewed_emptied : ∃ out, Review sampleTools emptiedCatalog "" "v3.0.0" sampleCommit = .ok out := by
  have hok : (Review sampleTools emptiedCatalog "" "v3.0.0" sampleCommit).isOk = true := by decide +kernel
  cases h : Review sampleTools emptiedCatalog "" "v3.0.0" sampleCommit with
  | error why =>
    rw [h] at hok
    cases hok
  | ok out => exact ⟨out, rfl⟩

theorem releaseEntries_naming : ∀ dialect ∈ [[], [0]], (namingTree dialect, namedRow) ∈ releaseEntries (namingTree dialect) := by
  have hrows : ∀ dialect ∈ [[], [0]], releaseRows (namingTree dialect) = [namedRow] := by decide +kernel
  intro dialect hdialect
  rw [releaseEntries, hrows dialect hdialect]
  exact List.mem_singleton_self _

end Exchange

end Desk
