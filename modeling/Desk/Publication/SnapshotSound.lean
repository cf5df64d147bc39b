import Desk.Publication.LedgerSound
import Desk.Publication.Transaction

/-!
# What a snapshot pins

A reading's entries carry the digests of its texts, in the order a lock has
them. Two readings that a digest tells apart publish one content only where they
pin one set.
-/

namespace Desk

namespace Publication

variable (e : Tools)

/-! ## Lists read item by item -/

theorem forall₂_of_mapM_some {α β : Type} {f : α → Option β} : ∀ {l : List α} {l' : List β}, l.mapM f = some l' →
    List.Forall₂ (fun a b => f a = some b) l l'
  | [], l', h => by
    simp only [List.mapM_nil, pure, Option.some.injEq] at h
    exact h ▸ List.Forall₂.nil
  | a :: l, l', h => by
    rw [List.mapM_cons] at h
    simp only [bind, Option.bind_eq_some_iff, pure, Option.some.injEq] at h
    obtain ⟨b, hb, rest, hrest, rfl⟩ := h
    exact List.Forall₂.cons hb (forall₂_of_mapM_some hrest)

theorem forall₂_of_mapM_ok {α β ε : Type} {f : α → Except ε β} : ∀ {l : List α} {l' : List β}, l.mapM f = .ok l' →
    List.Forall₂ (fun a b => f a = .ok b) l l'
  | [], l', h => by
    simp only [List.mapM_nil, pure, Except.pure, Except.ok.injEq] at h
    exact h ▸ List.Forall₂.nil
  | a :: l, l', h => by
    rw [List.mapM_cons] at h
    obtain ⟨b, hb, h⟩ := bind_eq_ok.mp h
    obtain ⟨rest, hrest, h⟩ := bind_eq_ok.mp h
    cases h
    exact List.Forall₂.cons hb (forall₂_of_mapM_ok hrest)

theorem mem_of_forall₂ {α β : Type} {R : α → β → Prop} {l : List α} {l' : List β} (h : List.Forall₂ R l l') :
    ∀ b ∈ l', ∃ a ∈ l, R a b := by
  induction h with
  | nil => nofun
  | cons hr _ ih =>
    intro b hb
    rcases List.mem_cons.mp hb with rfl | hb
    · exact ⟨_, List.mem_cons_self .., hr⟩
    · obtain ⟨a, ha, hab⟩ := ih b hb
      exact ⟨a, List.mem_cons_of_mem _ ha, hab⟩

/-! ## Order -/

theorem insertMember_sorted {α : Type} (m : String × α) : ∀ {l : List (String × α)}, l.Pairwise (fun a b => a.1 ≤ b.1) →
    (Json.insertMember m l).Pairwise fun a b => a.1 ≤ b.1
  | [], _ => List.pairwise_singleton ..
  | f :: rest, h => by
    unfold Json.insertMember
    obtain ⟨hf, hrest⟩ := List.pairwise_cons.mp h
    split_ifs with hlt
    · refine List.pairwise_cons.mpr ⟨?_, h⟩
      intro b hb
      rcases List.mem_cons.mp hb with rfl | hb
      · exact le_of_lt hlt
      · exact (le_of_lt hlt).trans (hf b hb)
    · refine List.pairwise_cons.mpr ⟨?_, insertMember_sorted m hrest⟩
      intro b hb
      rcases mem_insertMember hb with rfl | hb
      · exact not_lt.mp hlt
      · exact hf b hb
where
  mem_insertMember {α : Type} {m b : String × α} : ∀ {l : List (String × α)}, b ∈ Json.insertMember m l → b = m ∨ b ∈ l
    | [], h => Or.inl (List.mem_singleton.mp h)
    | f :: rest, h => by
      unfold Json.insertMember at h
      split_ifs at h
      · exact List.mem_cons.mp h
      · rcases List.mem_cons.mp h with rfl | h
        · exact Or.inr (List.mem_cons_self ..)
        · exact (mem_insertMember h).imp_right (List.mem_cons_of_mem _)

theorem sortMembers_sorted {α : Type} (l : List (String × α)) : (Json.sortMembers l).Pairwise fun a b => a.1 ≤ b.1 := by
  induction l with
  | nil => exact List.Pairwise.nil
  | cons m rest ih => exact insertMember_sorted m ih

/-! ## Readings -/

/-- Entries carry the digests of the texts read. -/
structure WellRead (snap : ReviewSnapshot) : Prop where
  entries : snap.docs.map (·.entry) = snap.set.entries
  digests : ∀ doc ∈ snap.docs, doc.entry.digest = e.sha256Digest doc.data
  config : snap.set.config = e.sha256Digest snap.config
  kinds : ∀ doc ∈ snap.docs, doc.entry.kind = "graph" ∨ doc.entry.kind = "pack"

/-- The texts of a reading. -/
def ReviewSnapshot.texts (snap : ReviewSnapshot) : List Bytes := snap.config :: snap.docs.map (·.data)

variable {e}

theorem WellRead.bytesOf {snap : ReviewSnapshot} (h : WellRead e snap) {digest : String} {data : Bytes}
    (hb : snap.bytesOf digest = some data) : e.sha256Digest data = digest ∧ data ∈ snap.texts := by
  unfold ReviewSnapshot.bytesOf at hb
  split_ifs at hb with hc
  · cases hb
    exact ⟨by rw [hc, h.config], List.mem_cons_self ..⟩
  · rw [Option.map_eq_some_iff] at hb
    obtain ⟨doc, hdoc, rfl⟩ := hb
    have hmem := List.mem_of_find?_eq_some hdoc
    have hd : doc.entry.digest = digest := by simpa using List.find?_some hdoc
    exact ⟨by rw [← hd, h.digests doc hmem], List.mem_cons_of_mem _ (List.mem_map_of_mem hmem)⟩

theorem takeDocuments_spec {files : Files} {kind : String} : ∀ {l : List (String × String)} {r r' : Reading}
    {docs : List SnapshotDocument}, takeDocuments e files kind l r = .ok (docs, r') →
    docs.map (fun d => (d.entry.id, d.entry.path)) = l ∧
      ∀ doc ∈ docs, doc.entry.kind = kind ∧ doc.entry.digest = e.sha256Digest doc.data
  | [], _, _, _, h => by
    cases h
    exact ⟨rfl, nofun⟩
  | (id, path) :: rest, r, r', docs, h => by
    unfold takeDocuments at h
    obtain ⟨⟨data, r₁⟩, _, h⟩ := bind_eq_ok.mp h
    obtain ⟨⟨docs', r₂⟩, hdocs, h⟩ := bind_eq_ok.mp h
    cases h
    obtain ⟨hl, hall⟩ := takeDocuments_spec hdocs
    refine ⟨by rw [List.map_cons, hl], ?_⟩
    intro doc hdoc
    rcases List.mem_cons.mp hdoc with rfl | hdoc
    · exact ⟨rfl, rfl⟩
    · exact hall doc hdoc

theorem entries_sorted {files : Files} {declared : Declared} {r r₁ r₂ : Reading} {graphs packs : List SnapshotDocument}
    (hg : takeDocuments e files "graph" (Json.sortMembers declared.graphs.entries) r = .ok (graphs, r₁))
    (hp : takeDocuments e files "pack" (Json.sortMembers declared.packs.entries) r₁ = .ok (packs, r₂)) :
    ((graphs ++ packs).map (·.entry)).Pairwise fun a b => entryLe a b = true := by
  obtain ⟨hgl, hgk⟩ := takeDocuments_spec hg
  obtain ⟨hpl, hpk⟩ := takeDocuments_spec hp
  have hsame : ∀ {docs : List SnapshotDocument} {l : List (String × String)} {kind : String},
      docs.map (fun d => (d.entry.id, d.entry.path)) = Json.sortMembers l → (∀ doc ∈ docs, doc.entry.kind = kind ∧
        doc.entry.digest = e.sha256Digest doc.data) → (docs.map (·.entry)).Pairwise fun a b => entryLe a b = true := by
    intro docs l kind hl hk
    have hs := sortMembers_sorted l
    rw [← hl, List.pairwise_map] at hs
    rw [List.pairwise_map]
    refine hs.imp_of_mem fun {a b} ha hb hab => ?_
    simp [entryLe, (hk a ha).1, (hk b hb).1, hab]
  rw [List.map_append, List.pairwise_append]
  refine ⟨hsame hgl hgk, hsame hpl hpk, ?_⟩
  intro a ha b hb
  obtain ⟨x, hx, rfl⟩ := List.mem_map.mp ha
  obtain ⟨y, hy, rfl⟩ := List.mem_map.mp hb
  rw [entryLe, (hgk x hx).1, (hpk y hy).1, if_pos (by decide)]
  decide

/-- What was read is what the project holds. -/
def Reading.Of (files : Files) (r : Reading) : Prop := ∀ name data, r.files.lookup name = some data → files name = some data

theorem take_spec {files : Files} {name : String} {absentOK : Bool} {r r' : Reading} {data : Option Bytes}
    (h : take e files name absentOK r = .ok (data, r')) (hr : r.Of files) :
    r'.Of files ∧ ∃ clean, e.wireRelativePath name = some clean ∧ data = files clean := by
  unfold take at h
  split at h
  · cases h
  · next clean hclean =>
    split at h
    · next raw hraw =>
      cases h
      exact ⟨hr, clean, hclean, (hr clean raw hraw).symm⟩
    · split at h
      · next hf =>
        split_ifs at h
        cases h
        exact ⟨hr, clean, hclean, hf.symm⟩
      · next raw hf =>
        split_ifs at h
        cases h
        refine ⟨?_, clean, hclean, hf.symm⟩
        intro n d hn
        rw [List.lookup_cons] at hn
        by_cases hk : n = clean
        · subst hk
          simp only [beq_self_eq_true] at hn
          exact hf.trans hn
        · have : (n == clean) = false := by simpa using hk
          rw [this] at hn
          exact hr n d hn

theorem takeDocuments_of {files : Files} {kind : String} : ∀ {l : List (String × String)} {r r' : Reading}
    {docs : List SnapshotDocument}, takeDocuments e files kind l r = .ok (docs, r') → r.Of files → r'.Of files
  | [], _, _, _, h, hr => by
    cases h
    exact hr
  | (_, _) :: _, _, _, _, h, hr => by
    unfold takeDocuments at h
    obtain ⟨⟨_, r₁⟩, htake, h⟩ := bind_eq_ok.mp h
    obtain ⟨⟨_, r₂⟩, hdocs, h⟩ := bind_eq_ok.mp h
    cases h
    exact takeDocuments_of hdocs (take_spec htake hr).1

/-- A snapshot is well read, and its lock is the project's. -/
theorem readSnapshot_spec {files : Files} {snap : ReviewSnapshot} (h : readSnapshot e files = .ok snap) :
    WellRead e snap ∧ snap.lock = files runtimeLockName := by
  unfold readSnapshot at h
  obtain ⟨⟨config, r⟩, hconfig, h⟩ := bind_eq_ok.mp h
  have hr : r.Of files := (take_spec hconfig (fun _ _ hl => by cases hl)).1
  simp only at h
  split at h
  · cases h
  · next declared hdeclared =>
    split_ifs at h
    · cases h
    obtain ⟨⟨graphs, r₁⟩, hg, h⟩ := bind_eq_ok.mp h
    obtain ⟨⟨packs, r₂⟩, hp, h⟩ := bind_eq_ok.mp h
    obtain ⟨⟨lock, r₃⟩, hlock, h⟩ := bind_eq_ok.mp h
    cases h
    have hsorted := entries_sorted hg hp
    obtain ⟨-, clean, hclean, hl⟩ := take_spec hlock (takeDocuments_of hp (takeDocuments_of hg hr))
    rw [show e.wireRelativePath runtimeLockName = some runtimeLockName from e.lockPath] at hclean
    cases hclean
    refine ⟨⟨?_, ?_, rfl, ?_⟩, hl⟩
    · exact (List.mergeSort_of_pairwise hsorted).symm
    · intro doc hdoc
      rcases List.mem_append.mp hdoc with hdoc | hdoc
      · exact ((takeDocuments_spec hg).2 doc hdoc).2
      · exact ((takeDocuments_spec hp).2 doc hdoc).2
    · intro doc hdoc
      rcases List.mem_append.mp hdoc with hdoc | hdoc
      · exact Or.inl ((takeDocuments_spec hg).2 doc hdoc).1
      · exact Or.inr ((takeDocuments_spec hp).2 doc hdoc).1

/-! ## The lock found -/

theorem lockedSet_kinds {raw : Bytes} {set : ReviewSet} (h : lockedSet e raw = some set) :
    ∀ entry ∈ set.entries, entry.kind = "graph" ∨ entry.kind = "pack" := by
  unfold lockedSet at h
  obtain ⟨lock, _, rfl⟩ := Option.map_eq_some_iff.mp h
  intro entry hentry
  have hentry := List.mem_mergeSort.mp hentry
  rcases List.mem_append.mp hentry with hm | hm
  · obtain ⟨m, _, rfl⟩ := List.mem_map.mp hm
    exact Or.inr rfl
  · obtain ⟨m, _, rfl⟩ := List.mem_map.mp hm
    exact Or.inl rfl

/-- Bytes found under a digest are the snapshot's or a copy's, and have it. -/
theorem readPrior_spec {copies : Table Bytes} {snap : ReviewSnapshot} (hs : WellRead e snap) {digest : String} {data : Bytes}
    (h : readPrior e copies snap digest = .ok data) :
    e.sha256Digest data = digest ∧ (data ∈ snap.texts ∨ ∃ name, copies.get? name = some data) := by
  unfold readPrior at h
  split at h
  · next d hd =>
    cases h
    exact ⟨(hs.bytesOf hd).1, Or.inl (hs.bytesOf hd).2⟩
  · split at h
    · cases h
    · next name _ =>
      split at h
      · cases h
      · next d hd =>
        split_ifs at h with _ hdig
        cases h
        exact ⟨not_not.mp hdig, Or.inr ⟨name, hd⟩⟩

theorem priorSnapshot_spec {copies : Table Bytes} {snap old : ReviewSnapshot} (hs : WellRead e snap) {prior : ReviewSet}
    (hk : ∀ entry ∈ prior.entries, entry.kind = "graph" ∨ entry.kind = "pack")
    (h : priorSnapshot e copies snap prior = .ok old) :
    WellRead e old ∧ old.set = prior ∧ ∀ data ∈ old.texts, data ∈ snap.texts ∨ ∃ name, copies.get? name = some data := by
  unfold priorSnapshot at h
  obtain ⟨config, hconfig, h⟩ := bind_eq_ok.mp h
  obtain ⟨docs, hdocs, h⟩ := bind_eq_ok.mp h
  cases h
  have hrel : List.Forall₂ (fun entry (doc : SnapshotDocument) => doc.entry = entry ∧
      readPrior e copies snap entry.digest = .ok doc.data) prior.entries docs := by
    refine (forall₂_of_mapM_ok hdocs).imp fun entry doc hdoc => ?_
    obtain ⟨data, hdata, hdoc⟩ := bind_eq_ok.mp hdoc
    cases hdoc
    exact ⟨rfl, hdata⟩
  have hentries : docs.map (·.entry) = prior.entries := by
    refine List.forall₂_eq_eq_eq ▸ (List.forall₂_map_left_iff.mpr (hrel.flip.imp fun doc entry hd => hd.1))
  refine ⟨⟨hentries, ?_, (readPrior_spec hs hconfig).1.symm, ?_⟩, rfl, ?_⟩
  · intro doc hdoc
    obtain ⟨entry, _, hentry, hdata⟩ := mem_of_forall₂ hrel doc hdoc
    rw [hentry]
    exact (readPrior_spec hs hdata).1.symm
  · intro doc hdoc
    exact hk doc.entry (hentries ▸ List.mem_map_of_mem hdoc)
  · intro data hdata
    rcases List.mem_cons.mp hdata with rfl | hdata
    · exact (readPrior_spec hs hconfig).2
    · obtain ⟨doc, hdoc, rfl⟩ := List.mem_map.mp hdata
      obtain ⟨entry, _, _, hd⟩ := mem_of_forall₂ hrel doc hdoc
      exact (readPrior_spec hs hd).2

/-! ## The publication of a snapshot -/

/-- A document of a publication is one read, under its head. -/
structure PublishedFrom (doc : SnapshotDocument) (d : PublishedDocument) : Prop where
  kind : d.kind = doc.entry.kind
  boundAs : d.boundAs = doc.entry.id
  path : d.path = doc.entry.path
  content : d.content = e.reference doc.data
  id : d.id ≠ ""
  version : d.version ≠ ""

theorem publishedDocument_spec {doc : SnapshotDocument} {d : PublishedDocument} (h : publishedDocument e doc = some d) :
    PublishedFrom (e := e) doc d := by
  unfold publishedDocument at h
  split at h
  · split_ifs at h with hne
    cases h
    rw [not_or] at hne
    exact ⟨rfl, rfl, rfl, rfl, hne.1, hne.2⟩
  · cases h

theorem publicationFromSnapshot_eq_ok {snap : ReviewSnapshot} {now : String} {p : ArtifactPublication} :
    publicationFromSnapshot e snap now = .ok p ↔ ∃ documents, snap.docs.mapM (publishedDocument e) = some documents ∧
      p = { id := publicationID e { at_ := now, config := some (e.reference snap.config), documents }, at_ := now
            config := some (e.reference snap.config), documents } := by
  unfold publicationFromSnapshot
  cases snap.docs.mapM (publishedDocument e) with
  | none => exact ⟨nofun, nofun⟩
  | some documents =>
    simp only [Except.ok.injEq, Option.some.injEq, exists_eq_left']
    exact eq_comm

/-- The documents of a publication are a snapshot's. -/
theorem publicationFromSnapshot_documents {snap : ReviewSnapshot} {now : String} {p : ArtifactPublication}
    (h : publicationFromSnapshot e snap now = .ok p) : List.Forall₂ (PublishedFrom (e := e)) snap.docs p.documents := by
  obtain ⟨documents, hdocs, rfl⟩ := publicationFromSnapshot_eq_ok.mp h
  exact (forall₂_of_mapM_some hdocs).imp fun _ _ => publishedDocument_spec

/-- A project's publication: no dialect, of packs and graphs. -/
structure OfProject (p : ArtifactPublication) : Prop where
  dialect : p.dialect = none
  kinds : ∀ d ∈ p.documents, d.kind = "graph" ∨ d.kind = "pack"

theorem ofProject {snap : ReviewSnapshot} (hs : WellRead e snap) {now : String} {p : ArtifactPublication}
    (h : publicationFromSnapshot e snap now = .ok p) : OfProject p := by
  refine ⟨?_, ?_⟩
  · obtain ⟨documents, _, rfl⟩ := publicationFromSnapshot_eq_ok.mp h
    rfl
  · intro d hd
    obtain ⟨doc, hdoc, hfrom⟩ := mem_of_forall₂ (publicationFromSnapshot_documents h) d hd
    rw [hfrom.kind]
    exact hs.kinds doc hdoc

theorem Tools.reference_valid {raw : Bytes} (h : raw.length ≤ retainedArtifactByteLimit) : (e.reference raw).valid = true := by
  simp only [RetainedArtifactRef.valid, Tools.reference, Bool.and_eq_true]
  exact ⟨e.digestForm raw, decide_eq_true h⟩

/-- A publication of retained texts is one the reader accepts. -/
theorem itemValid_of_snapshot {snap : ReviewSnapshot} (hs : WellRead e snap) {now : String} {p : ArtifactPublication}
    (h : publicationFromSnapshot e snap now = .ok p) (hnow : now ≠ "")
    (hkept : ∀ data ∈ snap.texts, data.length ≤ retainedArtifactByteLimit) : ItemValid e p := by
  have hdocs := publicationFromSnapshot_documents h
  have hkinds := (ofProject hs h).kinds
  obtain ⟨documents, _, rfl⟩ := publicationFromSnapshot_eq_ok.mp h
  refine ⟨rfl, rfl, ?_, hnow, rfl, ?_⟩
  · show (some (e.reference snap.config)).any (·.valid) = true
    exact Tools.reference_valid (hkept _ (List.mem_cons_self ..))
  · rw [List.all_eq_true]
    intro d hd
    obtain ⟨doc, hdoc, hfrom⟩ := mem_of_forall₂ hdocs d hd
    have hvalid : d.content.valid = true := by
      rw [hfrom.content]
      exact Tools.reference_valid (hkept _ (List.mem_cons_of_mem _ (List.mem_map_of_mem hdoc)))
    rcases hkinds d hd with hk | hk <;> simp [PublishedDocument.valid, hfrom.id, hfrom.version, hvalid, hk]

theorem putAll_eq_ok {o : Outside} {texts : List Bytes} (h : putAll o texts = .ok ()) :
    ∀ raw ∈ texts, raw.length ≤ retainedArtifactByteLimit := by
  induction texts with
  | nil => nofun
  | cons raw rest ih =>
    unfold putAll at h
    obtain ⟨_, hput, h⟩ := bind_eq_ok.mp h
    intro data hdata
    rcases List.mem_cons.mp hdata with rfl | hdata
    · unfold Outside.put at hput
      split_ifs at hput with hlt
      omega
    · exact ih h data hdata

/-! ## Closures -/

/-- The publication is the exact closure a set pins. -/
def ClosureOf (set : ReviewSet) (p : ArtifactPublication) : Prop :=
  p.config.map (fun c => "sha256:" ++ c.sha256) = some set.config ∧
    p.documents.map (fun d =>
      ({ kind := d.kind, id := d.boundAs, path := d.path, digest := "sha256:" ++ d.content.sha256 } : ReviewEntry)) = set.entries

theorem ClosureOf.of_content {set : ReviewSet} {p q : ArtifactPublication} (h : ClosureOf set p) (hpq : q.content = p.content) :
    ClosureOf set q := by
  have hc : q.content.config = p.content.config := congrArg _ hpq
  have hd : q.content.documents = p.content.documents := congrArg _ hpq
  change q.config = p.config at hc
  change q.documents = p.documents at hd
  unfold ClosureOf
  rw [hc, hd]
  exact h

theorem closureOf_snapshot {snap : ReviewSnapshot} (hs : WellRead e snap) {now : String} {p : ArtifactPublication}
    (h : publicationFromSnapshot e snap now = .ok p) : ClosureOf snap.set p := by
  have hdocs := publicationFromSnapshot_documents h
  refine ⟨?_, ?_⟩
  · obtain ⟨documents, _, rfl⟩ := publicationFromSnapshot_eq_ok.mp h
    rw [hs.config]
    rfl
  · rw [← hs.entries]
    have hrel : List.Forall₂ (fun (d : PublishedDocument) (doc : SnapshotDocument) =>
        ({ kind := d.kind, id := d.boundAs, path := d.path, digest := "sha256:" ++ d.content.sha256 } : ReviewEntry) = doc.entry)
        p.documents snap.docs := by
      have hmem : List.Forall₂ (fun (doc : SnapshotDocument) (d : PublishedDocument) => doc ∈ snap.docs ∧
          PublishedFrom (e := e) doc d) snap.docs p.documents := by
        rw [List.forall₂_and_left]
        exact ⟨fun _ h => h, hdocs⟩
      refine hmem.flip.imp fun d doc ⟨hdoc, hfrom⟩ => ?_
      have hdig := hs.digests doc hdoc
      rw [hfrom.kind, hfrom.boundAs, hfrom.path, hfrom.content]
      show ReviewEntry.mk doc.entry.kind doc.entry.id doc.entry.path (e.sha256Digest doc.data) = doc.entry
      rw [← hdig]
    exact List.forall₂_eq_eq_eq ▸ (List.forall₂_map_left_iff.mpr (List.forall₂_map_right_iff.mpr hrel))

/-- One set of texts that the digest tells apart is read one way. -/
theorem WellRead.unique {T : Set Bytes} (hT : Set.InjOn e.digestOf T) {a b : ReviewSnapshot} (ha : WellRead e a) (hb : WellRead e b)
    (hset : a.set = b.set) (hat : ∀ data ∈ a.texts, data ∈ T) (hbt : ∀ data ∈ b.texts, data ∈ T) :
    a.config = b.config ∧ a.docs = b.docs := by
  have hinj : ∀ {x y : Bytes}, x ∈ T → y ∈ T → e.sha256Digest x = e.sha256Digest y → x = y := by
    intro x y hx hy h
    exact hT hx hy (String.append_right_inj _ |>.mp h)
  refine ⟨hinj (hat _ (List.mem_cons_self ..)) (hbt _ (List.mem_cons_self ..)) ?_, ?_⟩
  · rw [← ha.config, ← hb.config, hset]
  · have hentries : a.docs.map (·.entry) = b.docs.map (·.entry) := by rw [ha.entries, hb.entries, hset]
    have hlen : a.docs.length = b.docs.length := by simpa using congrArg List.length hentries
    refine List.ext_getElem hlen fun i hi hi' => ?_
    have hentry : a.docs[i].entry = b.docs[i].entry := by
      have := congrArg (·[i]?) hentries
      simpa [hi, hi'] using this
    have hdata : a.docs[i].data = b.docs[i].data := by
      refine hinj (hat _ (List.mem_cons_of_mem _ (List.mem_map_of_mem (List.getElem_mem hi))))
        (hbt _ (List.mem_cons_of_mem _ (List.mem_map_of_mem (List.getElem_mem hi')))) ?_
      rw [← ha.digests _ (List.getElem_mem hi), ← hb.digests _ (List.getElem_mem hi'), hentry]
    generalize a.docs[i] = x at hentry hdata ⊢
    generalize b.docs[i] = y at hentry hdata ⊢
    cases x
    cases y
    cases hentry
    cases hdata
    rfl

/-- One set of texts that the digest tells apart has one content. -/
theorem content_unique {T : Set Bytes} (hT : Set.InjOn e.digestOf T) {a b : ReviewSnapshot} (ha : WellRead e a)
    (hb : WellRead e b) (hset : a.set = b.set) (hat : ∀ data ∈ a.texts, data ∈ T) (hbt : ∀ data ∈ b.texts, data ∈ T)
    {now now' : String} {p q : ArtifactPublication} (hp : publicationFromSnapshot e a now = .ok p)
    (hq : publicationFromSnapshot e b now' = .ok q) : p.content = q.content := by
  obtain ⟨hconfig, hdocs⟩ := ha.unique hT hb hset hat hbt
  obtain ⟨documents, hd, rfl⟩ := publicationFromSnapshot_eq_ok.mp hp
  obtain ⟨documents', hd', rfl⟩ := publicationFromSnapshot_eq_ok.mp hq
  rw [hdocs, hd'] at hd
  cases hd
  rw [hconfig]
  rfl

end Publication

end Desk
