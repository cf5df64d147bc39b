import Desk.Publication.HistorySound

/-!
# A lock is kept before it is replaced

When the Runtime's lock takes the place of another, the other's closure is an
item of the ledger with the reviews it was accepted with, unless the stop before
its commit met an older item of the same content without them.
-/

namespace Desk

namespace Publication

open Saves

variable {e : Tools} {o : Outside}

/-! ## What is known of a run -/

/-- The digest tells apart the texts and the publications of a run. -/
structure Apart (e : Tools) (texts : List Bytes) (pubs : List ArtifactPublication) : Prop where
  texts : ∀ x ∈ texts, ∀ y ∈ texts, e.digestOf x = e.digestOf y → x = y
  pubs : ∀ p ∈ pubs, ∀ q ∈ pubs, e.publicationDigest p = e.publicationDigest q → p = q

/-- What a publication is digested as. -/
def Among (pubs : List ArtifactPublication) (p : ArtifactPublication) : Prop := p.bare ∈ pubs ∧ p.content ∈ pubs

theorem Apart.injOn {texts : List Bytes} {pubs : List ArtifactPublication} (h : Apart e texts pubs) :
    Set.InjOn e.digestOf {x | x ∈ texts} := fun x hx y hy hxy => h.texts x hx y hy hxy

theorem Apart.content {texts : List Bytes} {pubs : List ArtifactPublication} (h : Apart e texts pubs) {p q : ArtifactPublication}
    (hp : Among pubs p) (hq : Among pubs q) (hs : samePublicationContent e p q = true) : p.content = q.content :=
  h.pubs _ hp.2 _ hq.2 (samePublicationContent_iff.mp hs)

theorem Apart.bare {texts : List Bytes} {pubs : List ArtifactPublication} (h : Apart e texts pubs) {p q : ArtifactPublication}
    (hp : Among pubs p) (hq : Among pubs q) (hs : publicationID e p = publicationID e q) : p.bare = q.bare :=
  h.pubs _ hp.1 _ hq.1 hs

/-! ## Kept locks -/

/-- The closure of a lock written over was an item, with the reviews Desk accepted it with. -/
def KeptHistory (e : Tools) (r : Replaced) : Prop :=
  ∀ prior, lockedSet e r.lock = some prior →
    ∃ q ∈ r.items, ClosureOf prior q ∧ ∀ refs, r.accepted = some refs → ∀ ref ∈ refs, ref ∈ q.reviews

/-- The lock on disk is of this snapshot and publication. -/
structure LockOf (e : Tools) (texts : List Bytes) (d : Disk) (snap : ReviewSnapshot) (p : ArtifactPublication) : Prop where
  read : WellRead e snap
  texts : ∀ t ∈ snap.texts, t ∈ texts
  lock : d.lock.bind (lockedSet e) = some snap.set
  content : ∃ now p₀, publicationFromSnapshot e snap now = .ok p₀ ∧ p₀.content = p.content

/-- An item of the publication's content carries the references. -/
def Carried (items : List ArtifactPublication) (p : ArtifactPublication) (refs : List RetainedArtifactRef) : Prop :=
  ∃ q ∈ items, q.content = p.content ∧ ∀ ref ∈ refs, ref ∈ q.reviews

/-- The publication is staged, and none of its content is an item. -/
def Pending (d : Disk) (p : ArtifactPublication) (refs : List RetainedArtifactRef) : Prop :=
  ∃ q, d.pending = some q ∧ q.content = p.content ∧ (∀ ref ∈ refs, ref ∈ q.reviews) ∧ ∀ x ∈ d.items, x.content ≠ p.content

/-- The references the lock was accepted with are an item's, or will be. -/
def Recoverable (e : Tools) (texts : List Bytes) (d : Disk) : Prop :=
  ∀ refs, d.accepted = some refs → refs ≠ [] →
    ∃ snap p, LockOf e texts d snap p ∧ (Carried d.items p refs ∨ Pending d p refs)

/-- They are an item's. -/
def Settled (e : Tools) (texts : List Bytes) (d : Disk) : Prop :=
  ∀ refs, d.accepted = some refs → refs ≠ [] → ∃ snap p, LockOf e texts d snap p ∧ Carried d.items p refs

theorem Settled.recoverable {texts : List Bytes} {d : Disk} (h : Settled e texts d) : Recoverable e texts d := by
  intro refs ha hne
  obtain ⟨snap, p, hl, hc⟩ := h refs ha hne
  exact ⟨snap, p, hl, Or.inl hc⟩

/-- Copies are of the run's texts, and the locks written over were kept. -/
structure Base (e : Tools) (texts : List Bytes) (d : Disk) : Prop where
  copies : ∀ name data, d.copies.get? name = some data → data ∈ texts
  replaced : ∀ r ∈ d.replaced, KeptHistory e r

theorem Base.congr {texts : List Bytes} {d d' : Disk} (h : Base e texts d) (hc : d'.copies = d.copies)
    (hr : d'.replaced = d.replaced) : Base e texts d' := ⟨hc ▸ h.copies, hr ▸ h.replaced⟩

theorem Base.copy {texts : List Bytes} {d : Disk} (h : Base e texts d) {name : String} {data : Bytes} (hd : data ∈ texts) :
    Base e texts { d with copies := d.copies.set name data } := by
  refine ⟨fun n x hx => ?_, h.replaced⟩
  by_cases hn : n = name
  · subst hn
    rw [Table.get?_set_self] at hx
    cases hx
    exact hd
  · rw [Table.get?_set_ne _ _ hn] at hx
    exact h.copies n x hx

/-! ## The lock found enters -/

/-- The lock found is an item, with what it was accepted with. -/
structure Entered (e : Tools) (texts : List Bytes) (pubs : List ArtifactPublication) (d₀ : Disk) (ledger : PublicationLedger)
    (d : Disk) : Prop where
  base : Base e texts d
  lock : d.lock = d₀.lock
  accepted : d.accepted = d₀.accepted
  ledger : ledger = d.ledger
  grows : ∀ v ∈ d₀.items, v ∈ d.items
  ids : ∀ v ∈ d.items, v.id = publicationID e v
  among : ∀ v ∈ d.items, Among pubs v
  settled : Settled e texts d
  kept : ∀ prior, d.lock.bind (lockedSet e) = some prior →
    ∃ q ∈ d.items, ClosureOf prior q ∧ ∀ refs, d.accepted = some refs → ∀ ref ∈ refs, ref ∈ q.reviews
  fresh : ∀ v ∈ d.items, v ∈ d₀.items ∨ ∃ prior, d.lock.bind (lockedSet e) = some prior ∧ ClosureOf prior v

variable {texts : List Bytes} {pubs : List ArtifactPublication} {d₀ : Disk} {ledger : PublicationLedger}

theorem LockOf.congr {d d' : Disk} {snap : ReviewSnapshot} {p : ArtifactPublication} (h : LockOf e texts d snap p)
    (hl : d'.lock = d.lock) : LockOf e texts d' snap p := ⟨h.read, h.texts, hl ▸ h.lock, h.content⟩

theorem Settled.congr {d d' : Disk} (h : Settled e texts d) (hl : d'.lock = d.lock) (ha : d'.accepted = d.accepted)
    (hi : ∀ q ∈ d.items, q ∈ d'.items) : Settled e texts d' := by
  intro refs hr hne
  obtain ⟨snap, p, hlock, q, hq, hc, hrefs⟩ := h refs (ha ▸ hr) hne
  exact ⟨snap, p, hlock.congr hl, q, hi q hq, hc, hrefs⟩

theorem Entered.copy {d : Disk} (h : Entered e texts pubs d₀ ledger d) {name : String} {data : Bytes} (hd : data ∈ texts) :
    Entered e texts pubs d₀ ledger { d with copies := d.copies.set name data } :=
  ⟨h.base.copy hd, h.lock, h.accepted, h.ledger, h.grows, h.ids, h.among, h.settled.congr rfl rfl fun _ hq => hq, h.kept,
    h.fresh⟩

/-- A project between two actions. -/
structure Steady (e : Tools) (texts : List Bytes) (pubs : List ArtifactPublication) (d : Disk) : Prop where
  base : Base e texts d
  recoverable : Recoverable e texts d
  items : ∀ v ∈ d.items, Among pubs v
  pending : ∀ v, d.pending = some v → Among pubs v

/-- The content of the lock's publication is the accepted one's. -/
theorem LockOf.content_eq (hA : Apart e texts pubs) {d : Disk} {snap old : ReviewSnapshot} {p p₀ : ArtifactPublication}
    (h : LockOf e texts d snap p) (hold : WellRead e old) (hset : d.lock.bind (lockedSet e) = some old.set)
    (ht : ∀ t ∈ old.texts, t ∈ texts) {now : String} (hp : publicationFromSnapshot e old now = .ok p₀) :
    p.content = p₀.content := by
  obtain ⟨now', p₁, hp₁, hc⟩ := h.content
  have hsets : snap.set = old.set := Option.some.inj (h.lock.symm.trans hset)
  rw [← hc]
  exact content_unique hA.injOn h.read hold hsets h.texts ht hp₁ hp

section
variable (hA : Apart e texts pubs) (hd₀ : Steady e texts pubs d₀) {snap : ReviewSnapshot} (hs : WellRead e snap)
  (hst : ∀ t ∈ snap.texts, t ∈ texts) (hlock : snap.lock = d₀.lock)
  (hsaved : ∀ prior old p, snap.lock.bind (lockedSet e) = some prior → priorSnapshot e d₀.copies snap prior = .ok old →
    publicationFromSnapshot e old o.now = .ok p → Among pubs p)
include hA hd₀ hs hst hlock hsaved

theorem keeps_recoverLock_entered (hl : ledger = d₀.ledger) (hids : ∀ v ∈ d₀.items, v.id = publicationID e v) :
    Keeps (fun d => d = d₀) (recoverLock e o snap ledger) (fun r => Entered e texts pubs d₀ r.1) (fun d => d = d₀) := by
  subst hl
  unfold recoverLock
  split
  · next hnone =>
    rw [hlock] at hnone
    refine keeps_pure fun d hd => ?_
    subst hd
    refine ⟨hd₀.base, rfl, rfl, rfl, fun _ hv => hv, hids, hd₀.items, ?_, ?_, fun v hv => Or.inl hv⟩
    · intro refs ha hne
      obtain ⟨_, _, hlk, _⟩ := hd₀.recoverable refs ha hne
      rw [hlk.lock] at hnone
      cases hnone
    · rw [hnone]
      nofun
  · next prior hprior =>
    obtain ⟨raw, -, hset⟩ := Option.bind_eq_some_iff.mp hprior
    refine keeps_load fun d hd => ?_
    subst hd
    have hC : ∀ s, s = d → s = d := fun _ h => h
    refine keeps_lift_bind hC fun old hold => ?_
    refine keeps_lift_bind hC fun saved hsav => ?_
    refine keeps_lift_bind hC fun _ _ => ?_
    obtain ⟨hwell, hoset, hotexts⟩ := priorSnapshot_spec hs (lockedSet_kinds hset) hold
    obtain ⟨p₀, hp₀, hsid, hcases⟩ := savedPublication_spec hsav
    have hp₀pubs : Among pubs p₀ := hsaved prior old p₀ hprior hold hp₀
    have htexts : ∀ t ∈ old.texts, t ∈ texts := by
      intro t ht
      rcases hotexts t ht with h | ⟨name, h⟩
      · exact hst t h
      · exact hd₀.base.copies name t h
    have hlocked : d.lock.bind (lockedSet e) = some old.set := by rw [← hlock, hprior, hoset]
    have hclosure : ClosureOf old.set p₀ := closureOf_snapshot hwell hp₀
    have hspubs : Among pubs saved := by
      rcases hcases with ⟨rfl, -⟩ | ⟨hpend, -⟩
      · exact hp₀pubs
      · exact hd₀.pending saved hpend
    have hscontent : saved.content = p₀.content := by
      rcases hcases with ⟨rfl, -⟩ | ⟨hpend, hsame⟩
      · rfl
      · exact hA.content hspubs hp₀pubs hsame
    -- the accepted references are carried by an item, or staged with the lock's own content
    have hrefs : ∀ refs, d.accepted = some refs → refs ≠ [] → ∃ sn p, LockOf e texts d sn p ∧ p.content = p₀.content ∧
        (Carried d.items p refs ∨ Pending d p refs) := by
      intro refs ha hne
      obtain ⟨sn, p, hlk, hor⟩ := hd₀.recoverable refs ha hne
      exact ⟨sn, p, hlk, hlk.content_eq hA hwell hlocked htexts hp₀, hor⟩
    have hkeeps : ∀ d' : Disk, d'.lock = d.lock → d'.accepted = d.accepted → (∃ q ∈ d'.items, q.content = p₀.content) →
        (∀ refs, d.accepted = some refs → refs ≠ [] → Carried d'.items p₀ refs) →
        Settled e texts d' ∧ ∀ prior', d'.lock.bind (lockedSet e) = some prior' → ∃ q ∈ d'.items, ClosureOf prior' q ∧
          ∀ refs, d'.accepted = some refs → ∀ ref ∈ refs, ref ∈ q.reviews := by
      intro d' hl' ha' ⟨q, hq, hqc⟩ hcarried
      refine ⟨?_, ?_⟩
      · intro refs ha hne
        obtain ⟨sn, p, hlk, hpc, _⟩ := hrefs refs (ha' ▸ ha) hne
        obtain ⟨q', hq', hqc', hr⟩ := hcarried refs (ha' ▸ ha) hne
        exact ⟨sn, p, hlk.congr hl', q', hq', hqc'.trans hpc.symm, hr⟩
      · intro prior' hp'
        rw [hl', hlocked] at hp'
        cases hp'
        cases hacc : d.accepted with
        | none => exact ⟨q, hq, hclosure.of_content hqc, by rw [ha', hacc]; nofun⟩
        | some refs =>
          by_cases hne : refs = []
          · refine ⟨q, hq, hclosure.of_content hqc, ?_⟩
            rw [ha', hacc, hne]
            rintro _ ⟨⟩ ref hr
            cases hr
          · obtain ⟨q', hq', hqc', hr⟩ := hcarried refs hacc hne
            refine ⟨q', hq', hclosure.of_content hqc', ?_⟩
            rw [ha', hacc]
            rintro _ ⟨⟩
            exact hr
    split
    · next entry hfind =>
      have hmem : entry ∈ d.items := List.mem_of_find?_eq_some hfind
      have hcontent : entry.content = p₀.content := by
        rw [← hscontent]
        exact hA.content (hd₀.items entry hmem) hspubs (by simpa using List.find?_some hfind)
      refine keeps_pure fun d' hd' => ?_
      subst hd'
      obtain ⟨hsettled, hkept⟩ := hkeeps d' rfl rfl ⟨entry, hmem, hcontent⟩ fun refs ha hne => by
        obtain ⟨_, p, _, hpc, hor⟩ := hrefs refs ha hne
        rcases hor with ⟨q, hq, hqc, hr⟩ | ⟨_, _, _, _, hnone⟩
        · exact ⟨q, hq, hqc.trans hpc, hr⟩
        · exact absurd (hcontent.trans hpc.symm) (hnone entry hmem)
      exact ⟨hd₀.base, rfl, rfl, rfl, fun _ hv => hv, hids, hd₀.items, hsettled, hkept, fun v hv => Or.inl hv⟩
    · next hfind =>
      refine keeps_lift_bind hC fun _ _ => ?_
      refine keeps_bind (Q := fun _ => Entered e texts pubs d { d.ledger with items := d.ledger.items ++ [saved] }) ?_ fun _ =>
        keeps_pure fun _ h => h
      refine keeps_writePublicationLedger hC fun d' hd' _ => ?_
      subst hd'
      have hnew : saved ∈ d'.items ++ [saved] := List.mem_append_right _ (List.mem_singleton.mpr rfl)
      have hitems : ∀ v ∈ d'.items ++ [saved], v ∈ d'.items ∨ v = saved := fun v hv =>
        (List.mem_append.mp hv).imp_right List.mem_singleton.mp
      obtain ⟨hsettled, hkept⟩ := hkeeps { d' with history := some { d'.ledger with items := d'.ledger.items ++ [saved] } }
        rfl rfl ⟨saved, hnew, hscontent⟩ fun refs ha hne => by
          obtain ⟨_, p, _, hpc, hor⟩ := hrefs refs ha hne
          rcases hor with ⟨q, hq, hqc, hr⟩ | ⟨q, hpend, hqc, hr, _⟩
          · exact ⟨q, List.mem_append_left _ hq, hqc.trans hpc, hr⟩
          · refine ⟨saved, hnew, hscontent, ?_⟩
            rcases hcases with ⟨_, hunlike⟩ | ⟨hpend', _⟩
            · have := hunlike q hpend
              rw [Bool.eq_false_iff] at this
              exact absurd (samePublicationContent_iff.mpr (by rw [hqc, hpc])) this
            · rw [hpend'] at hpend
              cases hpend
              exact hr
      refine ⟨hd₀.base.congr rfl rfl, rfl, rfl, rfl, fun _ hv => List.mem_append_left _ hv, ?_, ?_, hsettled, hkept, ?_⟩
      · intro v hv
        rcases hitems v hv with hv | rfl
        · exact hids v hv
        · exact hsid
      · intro v hv
        rcases hitems v hv with hv | rfl
        · exact hd₀.items v hv
        · exact hspubs
      · intro v hv
        rcases hitems v hv with hv | rfl
        · exact Or.inl hv
        · exact Or.inr ⟨old.set, hlocked, hclosure.of_content hscontent⟩

/-- What a begun transaction has. -/
structure Opened (e : Tools) (texts : List Bytes) (pubs : List ArtifactPublication) (o : Outside) (d₀ : Disk)
    (snap : ReviewSnapshot) (p : Transaction) (d : Disk) : Prop where
  entered : Entered e texts pubs d₀ p.ledger d
  candidate : publicationFromSnapshot e snap o.now = .ok p.candidate

/-- Where a transaction ends before it staged anything. -/
structure Unstaged (e : Tools) (texts : List Bytes) (d₀ d : Disk) : Prop where
  base : Base e texts d
  recoverable : Recoverable e texts d
  lock : d.lock = d₀.lock

omit hA hs hst hlock hsaved in
theorem Steady.unstaged : Unstaged e texts d₀ d₀ := ⟨hd₀.base, hd₀.recoverable, rfl⟩

omit hA hd₀ hs hst hlock hsaved in
theorem Entered.unstaged {d : Disk} (h : Entered e texts pubs d₀ ledger d) : Unstaged e texts d₀ d :=
  ⟨h.base, h.settled.recoverable, h.lock⟩

theorem keeps_beginPublication_opened :
    Keeps (fun d => d = d₀) (beginPublication e o snap) (Opened e texts pubs o d₀ snap) (Unstaged e texts d₀) := by
  unfold beginPublication
  refine keeps_load fun d hd => ?_
  subst hd
  have hC : ∀ s, s = d → Unstaged e texts d s := fun s h => h ▸ hd₀.unstaged
  refine keeps_lift_bind hC fun ledger hledger => ?_
  refine keeps_lift_bind hC fun candidate hcandidate => ?_
  have hids : ∀ v ∈ d.items, v.id = publicationID e v := by
    have hl := readPublicationLedger_ledger hledger
    cases hh : d.history with
    | none =>
      intro v hv
      rw [Disk.items, Disk.ledger, hh] at hv
      cases hv
    | some saved =>
      rw [hh] at hledger
      obtain ⟨heq, _, hsound⟩ := (readPublicationLedger_eq_ok e).mp hledger
      intro v hv
      rw [Disk.items, ← hl, heq] at hv
      exact (hsound.items v hv).id
  refine keeps_bind (Q := fun r => Entered e texts pubs d r.1) ?_ fun r => ?_
  · exact (keeps_recoverLock_entered hA hd₀ hs hst hlock hsaved (readPublicationLedger_ledger hledger) hids).weaken
      (fun _ h => h) (fun _ _ h => h) hC
  · obtain ⟨ledger, base⟩ := r
    have hE : ∀ s, Entered e texts pubs d ledger s → Unstaged e texts d s := fun _ h => h.unstaged
    refine keeps_lift_bind hE fun _ _ => keeps_lift_bind hE fun _ _ => ?_
    refine keeps_bind (Q := fun _ => Entered e texts pubs d ledger) ?_ fun _ => ?_
    · exact (keeps_storeCopies (fun s name data h hdata => h.copy (hst data hdata)) hs _).weaken (fun _ h => h)
        (fun _ _ h => h) hE
    · exact keeps_lift_bind hE fun _ _ => keeps_pure fun s h => ⟨h, hcandidate⟩

end

/-! ## A lock of the same set needs no review -/

theorem lockedDigest_of_closure {lock : LockDocument} {raw : Bytes} (hraw : e.lockDocument raw = some lock) {set : ReviewSet}
    (hset : lockedSet e raw = some set) {p : ArtifactPublication} (hp : ClosureOf set p) {doc : PublishedDocument}
    (hdoc : doc ∈ p.documents) : lockedDigest lock doc = "sha256:" ++ doc.content.sha256 := by
  unfold lockedSet at hset
  rw [hraw] at hset
  cases hset
  have hmem : ({ kind := doc.kind, id := doc.boundAs, path := doc.path, digest := "sha256:" ++ doc.content.sha256 } : ReviewEntry) ∈
      lockEntries "pack" lock.packs ++ lockEntries "graph" lock.graphs := by
    have hsorted := List.mem_map_of_mem (f := fun d : PublishedDocument =>
      ({ kind := d.kind, id := d.boundAs, path := d.path, digest := "sha256:" ++ d.content.sha256 } : ReviewEntry)) hdoc
    rw [hp.2] at hsorted
    exact List.mem_mergeSort.mp hsorted
  have hfound : ∀ {kind : String} {t : Table LockEntry},
      ({ kind := doc.kind, id := doc.boundAs, path := doc.path, digest := "sha256:" ++ doc.content.sha256 } : ReviewEntry) ∈
        lockEntries kind t → doc.kind = kind ∧ ∃ m, t.get? doc.boundAs = some m ∧ m.digest = "sha256:" ++ doc.content.sha256 := by
    intro kind t h
    obtain ⟨⟨name, m⟩, hm, heq⟩ := List.mem_map.mp h
    rw [ReviewEntry.mk.injEq] at heq
    obtain ⟨hkind, hname, _, hdigest⟩ := heq
    refine ⟨hkind.symm, m, ?_, hdigest⟩
    rw [← hname]
    exact Table.mem_entries.mp hm
  unfold lockedDigest
  rcases List.mem_append.mp hmem with h | h
  · obtain ⟨hk, m, hm, hd⟩ := hfound h
    rw [hk, if_neg (by decide), hm]
    exact hd
  · obtain ⟨hk, m, hm, hd⟩ := hfound h
    rw [hk, if_pos rfl, hm]
    exact hd

theorem projectReviewRows_closed {copies : Table Bytes} {snap : ReviewSnapshot} {lock : LockDocument}
    {items : List ArtifactPublication} : ∀ {docs : List PublishedDocument} {checked : Checked} {rows : List ProjectArtifactReview},
      (∀ doc ∈ docs, lockedDigest lock doc = "sha256:" ++ doc.content.sha256) →
      projectReviewRows e o copies snap lock items docs checked = .ok rows → ∀ row ∈ rows, row.required = false
  | [], _, _, _, h => by
    cases h
    nofun
  | doc :: rest, checked, rows, hdocs, h => by
    unfold projectReviewRows at h
    obtain ⟨⟨row, checked'⟩, hrow, h⟩ := bind_eq_ok.mp h
    obtain ⟨more, hmore, h⟩ := bind_eq_ok.mp h
    cases h
    intro r hr
    rcases List.mem_cons.mp hr with rfl | hr
    · unfold projectReviewRow at hrow
      simp only at hrow
      rw [if_pos (hdocs doc (List.mem_cons_self ..))] at hrow
      cases hrow
      rfl
    · exact projectReviewRows_closed (fun d hd => hdocs d (List.mem_cons_of_mem _ hd)) hmore r hr

/-- Nothing is accepted for the closure of the lock found. -/
theorem acceptedReviews_closed {copies : Table Bytes} {snap : ReviewSnapshot} {p : Transaction} {refs : Table RetainedArtifactRef}
    {accepted : List RetainedArtifactRef} (h : acceptedReviews e o copies snap p refs = .ok accepted) {set : ReviewSet}
    (hset : snap.lock.bind (lockedSet e) = some set) (hp : ClosureOf set p.candidate) : accepted = [] := by
  obtain ⟨_, lock, rows, hlock, hrows, hnil⟩ := acceptedReviews_spec h
  obtain ⟨raw, hraw, hls⟩ := Option.bind_eq_some_iff.mp hset
  refine hnil (projectReviewRows_closed (fun doc hdoc => ?_) hrows)
  unfold lockOf at hlock
  rw [hraw] at hlock
  simp only at hlock
  split at hlock
  · cases hlock
  · next l hl =>
    cases hlock
    exact lockedDigest_of_closure hl hls hp hdoc

end Publication

end Desk
