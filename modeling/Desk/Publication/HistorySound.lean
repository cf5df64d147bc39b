import Desk.Publication.Project
import Desk.Publication.TransactionSound

/-!
# The history of publications

Whatever is done to a project, its ledger is read as it was written, grows at
its end, and names one content a version; what is published advances.
-/

namespace Desk

namespace Publication

open Saves

variable {e : Tools} {o : Outside} {start : List ArtifactPublication}

/-! ## What is kept -/

/-- The items of a digest have one content. -/
def Separate (e : Tools) (items : List ArtifactPublication) : Prop :=
  ∀ p ∈ items, ∀ q ∈ items, publicationID e p = publicationID e q → p.bare = q.bare

theorem Separate.of_append {a b : List ArtifactPublication} (h : Separate e (a ++ b)) : Separate e a :=
  fun p hp q hq => h p (List.mem_append_left _ hp) q (List.mem_append_left _ hq)

/-- An item that another's check need not have seen: an import, or a dialect. -/
def Aside (q : ArtifactPublication) : Prop := q.imported = true ∨ q.dialect.isSome = true

/-- The versions of `p` were checked against the first items, and the rest are aside. -/
def CheckedAgainst (rt : Runtime) (items : List ArtifactPublication) (p : ArtifactPublication) (k : Nat) : Prop :=
  k ≤ items.length ∧ Later rt (items.take k) p ∧ (∀ q ∈ items.drop k, Aside q) ∧ (p.dialect.isSome = true → k = items.length)

/-- Every item that is no import was checked against those before it. -/
def Advances (rt : Runtime) (items : List ArtifactPublication) : Prop :=
  ∀ before p after, items = before ++ p :: after → p.imported = false → ∃ k, CheckedAgainst rt before p k

/-- A staged publication that is not yet an item. -/
structure Staged (e : Tools) (items : List ArtifactPublication) (p : ArtifactPublication) : Prop where
  valid : ItemValid e p
  project : OfProject p
  checked : ∃ k, CheckedAgainst e.runtime items p k

/-- What holds of the files between any two saves. -/
structure Sound (e : Tools) (d : Disk) : Prop where
  ledger : ∀ ledger, d.history = some ledger → Fits e ledger ∧ LedgerSound e ledger
  kinds : ∀ p ∈ d.items, p.dialect = none → OfProject p
  advances : Advances e.runtime d.items
  pending : ∀ p, d.pending = some p → p ∈ d.items ∨ Staged e d.items p

/-- The files between two saves, and the items there were. -/
def Kept (e : Tools) (start : List ArtifactPublication) (d : Disk) : Prop :=
  start <+: d.items ∧ (Separate e d.items → Sound e d)

theorem Kept.congr {d d' : Disk} (h : Kept e start d) (hh : d'.history = d.history) (hp : d'.pending = d.pending) : Kept e start d' := by
  have hl : d'.ledger = d.ledger := by rw [Disk.ledger, Disk.ledger, hh]
  have hi : d'.items = d.items := congrArg PublicationLedger.items hl
  refine ⟨hi ▸ h.1, fun hs => ?_⟩
  rw [hi] at hs
  have := h.2 hs
  refine ⟨?_, ?_, ?_, ?_⟩
  · rw [hh]
    exact this.ledger
  · rw [hi]
    exact this.kinds
  · rw [hi]
    exact this.advances
  · rw [hp, hi]
    exact this.pending

theorem Sound.ledgerSound {d : Disk} (h : Sound e d) : LedgerSound e d.ledger := by
  unfold Disk.ledger
  cases hh : d.history with
  | none => exact ledgerSound_empty e
  | some ledger => exact (h.ledger ledger hh).2

theorem readPublicationLedger_ledger {d : Disk} {ledger : PublicationLedger}
    (h : readPublicationLedger e d.history = .ok ledger) : ledger = d.ledger := by
  unfold Disk.ledger
  cases hh : d.history with
  | none =>
    rw [hh] at h
    cases h
    rfl
  | some saved =>
    rw [hh] at h
    exact ((readPublicationLedger_eq_ok e).mp h).1

/-! ## What enters -/

theorem Later.of_append {rt : Runtime} {a : List ArtifactPublication} {p : ArtifactPublication} (h : Later rt a p) :
    Later rt (a.take a.length) p := by
  rwa [List.take_length]

theorem CheckedAgainst.append {rt : Runtime} {items : List ArtifactPublication} {p q : ArtifactPublication} {k : Nat}
    (h : CheckedAgainst rt items p k) (hp : p.dialect = none) (hq : Aside q) : CheckedAgainst rt (items ++ [q]) p k := by
  obtain ⟨hk, hlater, haside, _⟩ := h
  refine ⟨by rw [List.length_append]; omega, ?_, ?_, ?_⟩
  · rwa [List.take_append_of_le_length hk]
  · intro x hx
    rw [List.drop_append_of_le_length hk] at hx
    rcases List.mem_append.mp hx with hx | hx
    · exact haside x hx
    · exact List.mem_singleton.mp hx ▸ hq
  · intro hd
    rw [hp] at hd
    cases hd

theorem Advances.append {rt : Runtime} {items : List ArtifactPublication} (h : Advances rt items) {p : ArtifactPublication}
    (hp : p.imported = false → ∃ k, CheckedAgainst rt items p k) : Advances rt (items ++ [p]) := by
  intro before q after heq hq
  rcases List.eq_nil_or_concat after with rfl | ⟨init, last, rfl⟩
  · obtain ⟨rfl, hx⟩ := List.append_inj' heq rfl
    cases hx
    exact hp hq
  · have heq : items ++ [p] = (before ++ q :: init) ++ [last] := by simpa using heq
    obtain ⟨rfl, -⟩ := List.append_inj' heq rfl
    exact h before q init rfl hq

/-- An item enters at the end. -/
theorem Sound.append {d : Disk} (h : Sound e d) {p : ArtifactPublication} (hp : ItemValid e p)
    (hid : ∀ q ∈ d.items, q.id ≠ p.id) (hone : OneContent (documentsOf d.items ++ p.documents))
    (hfits : Fits e { d.ledger with items := d.items ++ [p] }) (hkind : p.dialect = none → OfProject p)
    (hchecked : p.imported = false → ∃ k, CheckedAgainst e.runtime d.items p k) (haside : Aside p ∨ d.pending = some p) :
    Sound e { d with history := some { d.ledger with items := d.items ++ [p] } } where
  ledger := by
    intro ledger hl
    cases hl
    exact ⟨hfits, h.ledgerSound.append e hp hid hone⟩
  kinds := by
    intro q hq hd
    rcases List.mem_append.mp hq with hq | hq
    · exact h.kinds q hq hd
    · cases List.mem_singleton.mp hq
      exact hkind hd
  advances := h.advances.append hchecked
  pending := by
    intro q hq
    show q ∈ d.items ++ [p] ∨ Staged e (d.items ++ [p]) q
    rcases haside with haside | hpend
    · rcases h.pending q hq with hmem | hst
      · exact Or.inl (List.mem_append_left _ hmem)
      · obtain ⟨k, hk⟩ := hst.checked
        exact Or.inr ⟨hst.valid, hst.project, k, hk.append hst.project.dialect haside⟩
    · have hq : d.pending = some q := hq
      rw [hpend] at hq
      cases hq
      exact Or.inl (List.mem_append_right _ (List.mem_singleton.mpr rfl))

/-- The same items written again, with the receipts there are. -/
theorem Sound.rewrite {d : Disk} (h : Sound e d) {ledger : PublicationLedger} (hi : ledger.items = d.items)
    (hfits : Fits e ledger) (hl : LedgerSound e ledger) : Sound e { d with history := some ledger } where
  ledger := by
    intro l hl'
    cases hl'
    exact ⟨hfits, hl⟩
  kinds := by
    show ∀ p ∈ ledger.items, _
    rw [hi]
    exact h.kinds
  advances := by
    show Advances e.runtime ledger.items
    rw [hi]
    exact h.advances
  pending := by
    intro p hp
    show p ∈ ledger.items ∨ Staged e ledger.items p
    rw [hi]
    exact h.pending p hp

theorem keeps_writePublicationLedger {ledger : PublicationLedger} {P C : Disk → Prop} {Q : Unit → Disk → Prop}
    (hC : ∀ d, P d → C d) (hQ : ∀ d, P d → Fits e ledger → Q () { d with history := some ledger }) :
    Keeps P (writePublicationLedger e ledger) Q C := by
  unfold writePublicationLedger
  refine keeps_lift_bind hC fun l hl => ?_
  obtain ⟨rfl, hfits⟩ := (encodePublicationLedger_eq_ok e).mp hl
  refine keeps_load fun d hd => ?_
  split_ifs with hsame
  · refine keeps_pure fun s hs => ?_
    subst hs
    have := hQ s hd hfits
    rwa [← hsame] at this
  · exact keeps_save (fun s hs => hs ▸ hC d hd) fun s hs => hs ▸ hQ d hd hfits

/-! ## The lock found -/

theorem keeps_storeCopies {snap : ReviewSnapshot} {P : Disk → Prop}
    (hP : ∀ d name data, P d → data ∈ snap.texts → P { d with copies := d.copies.set name data }) (hs : WellRead e snap)
    (digests : List String) : Keeps P (storeCopies e snap digests) (fun _ => P) P := by
  induction digests with
  | nil => exact keeps_pure fun _ h => h
  | cons digest rest ih =>
    unfold storeCopies
    split
    · next name data _ hdata =>
      split_ifs with hdig
      · exact keeps_refuse_bind fun _ h => h
      · refine keeps_load fun d hd => ?_
        split_ifs with hkept
        · exact ih.weaken (fun s hs => hs ▸ hd) (fun _ _ h => h) fun _ h => h
        · refine keeps_bind (Q := fun _ => P) ?_ fun _ => ih
          exact keeps_save (fun s hs => hs ▸ hd) fun s hs' => hs' ▸ hP d name data hd (hs.bytesOf hdata).2
    · exact keeps_refuse fun _ h => h

/-- The publication of the lock found is the one staged, where it has the lock's content, or an import. -/
theorem savedPublication_spec {pending : Option ArtifactPublication} {old : ReviewSnapshot} {saved : ArtifactPublication}
    (h : savedPublication e o pending old = .ok saved) :
    ∃ p, publicationFromSnapshot e old o.now = .ok p ∧ saved.id = publicationID e saved ∧
      (saved = { p with imported := true } ∧ (∀ q, pending = some q → samePublicationContent e q p = false) ∨
        pending = some saved ∧ samePublicationContent e saved p = true) := by
  unfold savedPublication at h
  obtain ⟨p, hp, h⟩ := bind_eq_ok.mp h
  obtain ⟨staged, hstaged, h⟩ := bind_eq_ok.mp h
  have hpid : p.id = publicationID e p := by
    obtain ⟨documents, _, rfl⟩ := publicationFromSnapshot_eq_ok.mp hp
    rfl
  refine ⟨p, hp, ?_⟩
  cases pending with
  | none =>
    cases hstaged
    cases h
    exact ⟨hpid, Or.inl ⟨rfl, nofun⟩⟩
  | some q =>
    unfold readPendingPublication at hstaged
    dsimp only at hstaged
    split_ifs at hstaged with _ hform _
    cases hstaged
    simp only [not_or, ne_eq, not_not] at hform
    simp only at h
    by_cases hsame : samePublicationContent e q p = true
    · rw [if_pos hsame] at h
      cases h
      exact ⟨hform.1, Or.inr ⟨rfl, hsame⟩⟩
    · rw [if_neg hsame] at h
      cases h
      refine ⟨hpid, Or.inl ⟨rfl, ?_⟩⟩
      intro q' hq'
      cases hq'
      simpa using hsame

theorem samePublicationContent_iff {a b : ArtifactPublication} :
    samePublicationContent e a b = true ↔ publicationID e a.content = publicationID e b.content := by
  simp [samePublicationContent]

/-- An item of another content has another identity, where items of a digest have one content. -/
theorem id_ne_of_unlike {items : List ArtifactPublication} {saved : ArtifactPublication} (hs : Separate e (items ++ [saved]))
    (hv : ∀ q ∈ items, ItemValid e q) (hsaved : saved.id = publicationID e saved)
    (hn : items.find? (fun q => samePublicationContent e q saved) = none) : ∀ q ∈ items, q.id ≠ saved.id := by
  intro q hq heq
  have hid : publicationID e q = publicationID e saved := by rw [← (hv q hq).id, heq, hsaved]
  have hbare := hs q (List.mem_append_left _ hq) saved (List.mem_append_right _ (List.mem_singleton.mpr rfl)) hid
  have hcontent : q.bare.content = saved.bare.content := by rw [hbare]
  rw [content_bare, content_bare] at hcontent
  have := List.find?_eq_none.mp hn q hq
  rw [samePublicationContent_iff, hcontent] at this
  exact this rfl

theorem keeps_recoverLock {snap : ReviewSnapshot} (hs : WellRead e snap) (ledger : PublicationLedger) :
    Keeps (fun d => Kept e start d ∧ ledger = d.ledger) (recoverLock e o snap ledger) (fun r d => Kept e start d ∧ r.1 = d.ledger)
      (Kept e start) := by
  unfold recoverLock
  split
  · exact keeps_pure fun d h => h
  · next prior hprior =>
    obtain ⟨raw, -, hset⟩ := Option.bind_eq_some_iff.mp hprior
    refine keeps_load fun d ⟨hd, hledger⟩ => ?_
    have hC : ∀ s, s = d → Kept e start s := fun s hs => hs ▸ hd
    refine keeps_lift_bind hC fun old hold => ?_
    refine keeps_lift_bind hC fun saved hsaved => ?_
    refine keeps_lift_bind hC fun _ hput => ?_
    obtain ⟨hwell, -, -⟩ := priorSnapshot_spec hs (lockedSet_kinds hset) hold
    obtain ⟨p, hp, -, hcases⟩ := savedPublication_spec hsaved
    have hvalid := itemValid_of_snapshot hwell hp o.clock (putAll_eq_ok hput)
    split
    · exact keeps_pure fun s hs => hs ▸ ⟨hd, hledger⟩
    · next hfind =>
      refine keeps_lift_bind hC fun _ hadmits => ?_
      have hone := admitPublication_eq_ok.mp hadmits
      refine keeps_bind (Q := fun _ s => Kept e start s ∧ { ledger with items := ledger.items ++ [saved] } = s.ledger) ?_ ?_
      · refine keeps_writePublicationLedger hC fun s hs hfits => ?_
        subst hs
        subst hledger
        refine ⟨⟨hd.1.trans (List.prefix_append _ _), fun hsep => ?_⟩, rfl⟩
        have hsep : Separate e (s.items ++ [saved]) := hsep
        have hsound := hd.2 hsep.of_append
        rcases hcases with ⟨rfl, -⟩ | ⟨hpend, hsame⟩
        · have hsv : ItemValid e { p with imported := true } :=
            ⟨hvalid.review, hvalid.id, hvalid.covers, hvalid.at_, hvalid.reviews, hvalid.documents⟩
          refine hsound.append hsv (id_ne_of_unlike hsep hsound.ledgerSound.items hvalid.id hfind) hone hfits ?_ nofun
            (Or.inl (Or.inl rfl))
          intro _
          exact ⟨(ofProject hwell hp).dialect, (ofProject hwell hp).kinds⟩
        · rcases hsound.pending saved hpend with hmem | hst
          · have := List.find?_eq_none.mp hfind saved hmem
            exact absurd (samePublicationContent_iff.mpr rfl) this
          · exact hsound.append hst.valid (id_ne_of_unlike hsep hsound.ledgerSound.items hst.valid.id hfind) hone hfits
              (fun _ => hst.project) (fun _ => hst.checked) (Or.inr hpend)
      · exact fun _ => keeps_pure fun s hs => hs

/-! ## A transaction of a lock -/

/-- A transaction that may enter its candidate. -/
structure Begun (e : Tools) (start : List ArtifactPublication) (o : Outside) (snap : ReviewSnapshot) (p : Transaction) (d : Disk) : Prop where
  kept : Kept e start d
  ledger : p.ledger = d.ledger
  candidate : publicationFromSnapshot e snap o.now = .ok p.candidate
  contents : OneContent (documentsOf d.items ++ p.candidate.documents)
  texts : ∀ data ∈ snap.texts, data.length ≤ retainedArtifactByteLimit

theorem keeps_beginPublication {snap : ReviewSnapshot} (hs : WellRead e snap) :
    Keeps (Kept e start) (beginPublication e o snap) (Begun e start o snap) (Kept e start) := by
  unfold beginPublication
  refine keeps_load fun d hd => ?_
  have hC : ∀ s, s = d → Kept e start s := fun s hs => hs ▸ hd
  refine keeps_lift_bind hC fun ledger hledger => ?_
  refine keeps_lift_bind hC fun candidate hcandidate => ?_
  refine keeps_bind (Q := fun r s => Kept e start s ∧ r.1 = s.ledger) ?_ fun r => ?_
  · refine (keeps_recoverLock hs ledger).weaken (fun s hs => ?_) (fun _ _ h => h) fun _ h => h
    subst hs
    exact ⟨hd, readPublicationLedger_ledger hledger⟩
  · obtain ⟨ledger, base⟩ := r
    refine keeps_lift_bind (fun s hs => hs.1) fun _ hadmits => ?_
    refine keeps_lift_bind (fun s hs => hs.1) fun _ hput => ?_
    refine keeps_bind (Q := fun _ s => Kept e start s ∧ ledger = s.ledger) ?_ fun _ => ?_
    · refine (keeps_storeCopies (P := fun s => Kept e start s ∧ ledger = s.ledger) ?_ hs _).weaken (fun _ h => h) (fun _ _ h => h)
        fun _ h => h.1
      intro s name data hs _
      exact ⟨hs.1.congr rfl rfl, hs.2⟩
    · refine keeps_lift_bind (fun s hs => hs.1) fun _ _ => ?_
      refine keeps_pure fun s hs => ⟨hs.1, hs.2, hcandidate, ?_, putAll_eq_ok hput⟩
      have := admitPublication_eq_ok.mp hadmits
      rwa [hs.2] at this

/-- What a transaction may commit: a publication that is there, or a checked one. -/
structure Ready (e : Tools) (start : List ArtifactPublication) (p : Transaction) (d : Disk) : Prop where
  kept : Kept e start d
  ledger : p.ledger = d.ledger
  candidate : p.candidate ∈ d.items ∨
    ItemValid e p.candidate ∧ (p.candidate.dialect = none → OfProject p.candidate) ∧
      OneContent (documentsOf d.items ++ p.candidate.documents) ∧ CheckedAgainst e.runtime d.items p.candidate d.items.length ∧
      (Aside p.candidate ∨ d.pending = some p.candidate)

theorem checkedAgainst_all {p : Transaction} {items : List ArtifactPublication} {q : ArtifactPublication} (hl : p.ledger.items = items)
    (h : Later e.runtime p.ledger.items q) : CheckedAgainst e.runtime items q items.length := by
  subst hl
  refine ⟨le_rfl, by rwa [List.take_length], ?_, fun _ => rfl⟩
  rw [List.drop_length]
  nofun

theorem keeps_commit {p : Transaction} : Keeps (Ready e start p) (p.commit e) (fun _ => Kept e start) (Kept e start) := by
  unfold Transaction.commit
  refine keeps_writePublicationLedger (fun d h => h.kept) fun d h hfits => ?_
  have hledger := h.ledger
  unfold withCandidate at hfits ⊢
  split_ifs at hfits ⊢ with hid
  · rw [hledger] at hfits ⊢
    refine ⟨h.kept.1, fun hsep => ?_⟩
    have hsound := h.kept.2 hsep
    exact hsound.rewrite rfl hfits hsound.ledgerSound
  · rw [hledger] at hid hfits ⊢
    refine ⟨h.kept.1.trans (List.prefix_append _ _), fun hsep => ?_⟩
    have hsep : Separate e (d.items ++ [p.candidate]) := hsep
    have hsound := h.kept.2 hsep.of_append
    have hnew : ∀ q ∈ d.items, q.id ≠ p.candidate.id := by simpa [Disk.items] using hid
    rcases h.candidate with hmem | ⟨hvalid, hkind, hone, hchecked, haside⟩
    · exact absurd rfl (hnew _ hmem)
    · exact hsound.append hvalid hnew hone hfits hkind (fun _ => ⟨_, hchecked⟩) haside

theorem artifactReview_valid {ref : RetainedArtifactRef} {review : ArtifactReview} (h : artifactReview o ref = .ok review) :
    ref.valid = true := by
  unfold artifactReview at h
  split_ifs at h with hv
  rw [not_or] at hv
  simpa using hv.1

/-- A reference accepted is one submitted, and valid. -/
def Submitted (refs : Table RetainedArtifactRef) (r : RetainedArtifactRef) : Prop :=
  r.valid = true ∧ ∃ key, refs.get? key = some r

theorem admitRow_submitted {snap : ReviewSnapshot} {candidate : ArtifactPublication} {refs : Table RetainedArtifactRef}
    {row : ProjectArtifactReview} {ref : Option RetainedArtifactRef} (h : admitRow e o snap candidate refs row = .ok ref) :
    (∀ r ∈ ref, Submitted refs r) ∧ (row.required = false → ref = none) := by
  unfold admitRow at h
  by_cases hrequired : ¬row.required = true
  · rw [if_pos hrequired] at h
    cases h
    exact ⟨nofun, fun _ => rfl⟩
  rw [if_neg hrequired] at h
  refine ⟨?_, fun hr => absurd (by simp [hr]) hrequired⟩
  split at h
  · next r _ _ hr _ _ =>
    obtain ⟨review, hreview, h⟩ := bind_eq_ok.mp h
    split_ifs at h
    · cases h
    · obtain ⟨_, _, h⟩ := bind_eq_ok.mp h
      cases h
      intro r hr'
      cases hr'
      exact ⟨artifactReview_valid hreview, row.key, hr⟩
  · cases h

theorem admitRows_submitted {snap : ReviewSnapshot} {candidate : ArtifactPublication} {refs : Table RetainedArtifactRef}
    {rows : List ProjectArtifactReview} {accepted : List RetainedArtifactRef}
    (h : admitRows e o snap candidate refs rows = .ok accepted) :
    (∀ r ∈ accepted, Submitted refs r) ∧ ((∀ row ∈ rows, row.required = false) → accepted = []) := by
  induction rows generalizing accepted with
  | nil =>
    cases h
    exact ⟨nofun, fun _ => rfl⟩
  | cons row rest ih =>
    unfold admitRows at h
    obtain ⟨ref, href, h⟩ := bind_eq_ok.mp h
    obtain ⟨more, hmore, h⟩ := bind_eq_ok.mp h
    cases h
    refine ⟨?_, ?_⟩
    · intro r hr
      rcases List.mem_append.mp hr with hr | hr
      · exact (admitRow_submitted href).1 r (Option.mem_toList.mp hr)
      · exact (ih hmore).1 r hr
    · intro hall
      rw [(admitRow_submitted href).2 (hall row (List.mem_cons_self ..)),
        (ih hmore).2 fun r hr => hall r (List.mem_cons_of_mem _ hr)]
      rfl

/-- The references accepted are submitted ones, of the rows there are. -/
theorem acceptedReviews_spec {copies : Table Bytes} {snap : ReviewSnapshot} {p : Transaction} {refs : Table RetainedArtifactRef}
    {accepted : List RetainedArtifactRef} (h : acceptedReviews e o copies snap p refs = .ok accepted) :
    (∀ r ∈ accepted, Submitted refs r) ∧
      ∃ lock rows, lockOf e snap = .ok lock ∧
        projectReviewRows e o copies snap lock p.ledger.items p.candidate.documents [] = .ok rows ∧
        ((∀ row ∈ rows, row.required = false) → accepted = []) := by
  unfold acceptedReviews at h
  obtain ⟨lock, hlock, h⟩ := bind_eq_ok.mp h
  obtain ⟨rows, hrows, h⟩ := bind_eq_ok.mp h
  obtain ⟨accepted', haccepted, h⟩ := bind_eq_ok.mp h
  split_ifs at h with hlen
  · cases h
  · cases h
    exact ⟨(admitRows_submitted haccepted).1, lock, rows, hlock, hrows, (admitRows_submitted haccepted).2⟩

/-- The candidate with its reviews, or a publication that is there. -/
theorem acceptedCandidate_cases (items : List ArtifactPublication) (candidate : ArtifactPublication)
    (accepted : List RetainedArtifactRef) :
    acceptedCandidate e items candidate accepted =
        { candidate with id := publicationID e { candidate with reviews := accepted }, reviews := accepted } ∨
      accepted = [] ∧ acceptedCandidate e items candidate accepted ∈ items := by
  unfold acceptedCandidate
  simp only
  split_ifs with hempty
  · rw [List.isEmpty_iff] at hempty
    cases hf : items.find? fun prior => samePublicationContent e prior
        { candidate with id := publicationID e { candidate with reviews := accepted }, reviews := accepted } with
    | none => exact Or.inl rfl
    | some prior => exact Or.inr ⟨hempty, List.mem_of_find?_eq_some hf⟩
  · exact Or.inl rfl

/-! ## Locks -/

theorem confirmedSnapshot_spec {files : Files} {lock : Option Bytes} {token : String} {snap : ReviewSnapshot}
    (h : confirmedSnapshot e files lock token = .ok snap) : WellRead e snap ∧ snap.lock = lock ∧ reviewToken e snap = token := by
  unfold confirmedSnapshot at h
  split at h
  · next s hread =>
    split_ifs at h with htoken
    cases h
    obtain ⟨hwell, hlock⟩ := readSnapshot_spec hread
    exact ⟨hwell, hlock.trans (if_pos rfl), htoken⟩
  · cases h

theorem keeps_reconcileLock {snap : ReviewSnapshot} (hs : WellRead e snap) :
    Keeps (Kept e start) (reconcileLock e o snap) (fun _ => Kept e start) (Kept e start) := by
  unfold reconcileLock
  refine keeps_load fun d hd => ?_
  have hC : ∀ s, s = d → Kept e start s := fun s hs => hs ▸ hd
  split
  · refine keeps_bind (Q := fun _ => Kept e start) ?_ fun _ => keeps_pure fun _ h => h
    exact keeps_within ((keeps_beginPublication hs).weaken hC (fun _ _ h => h.kept) fun _ h => h)
  · exact keeps_refuse hC

/-- A candidate that was accepted: a publication that is there, or a checked one of the project. -/
structure Acceptable (e : Tools) (start : List ArtifactPublication) (p : Transaction) (d : Disk) : Prop where
  kept : Kept e start d
  ledger : p.ledger = d.ledger
  candidate : p.candidate ∈ d.items ∨
    ItemValid e p.candidate ∧ OfProject p.candidate ∧ OneContent (documentsOf d.items ++ p.candidate.documents) ∧
      CheckedAgainst e.runtime d.items p.candidate d.items.length

theorem keeps_stageReview {p : Transaction} :
    Keeps (Acceptable e start p) (stageReview e p.candidate) (fun _ => Ready e start p) (Kept e start) := by
  unfold stageReview
  split_ifs with hsize
  · exact keeps_refuse_bind fun _ h => h.kept
  · refine keeps_save (fun _ h => h.kept) fun d h => ⟨?_, h.ledger, ?_⟩
    · refine ⟨h.kept.1, fun hsep => ?_⟩
      have hsound := h.kept.2 hsep
      refine ⟨hsound.ledger, hsound.kinds, hsound.advances, ?_⟩
      intro q hq
      cases hq
      exact h.candidate.imp_right fun ⟨hvalid, hproject, _, hchecked⟩ => ⟨hvalid, hproject, _, hchecked⟩
    · exact h.candidate.imp_right fun ⟨hvalid, hproject, hone, hchecked⟩ =>
        ⟨hvalid, fun _ => hproject, hone, hchecked, Or.inr rfl⟩

theorem keeps_restoreLock {P : Disk → Prop} {previous : Option Bytes} {accepted : Option (List RetainedArtifactRef)}
    {config : String} (hP : ∀ d, P d → P { d with lock := previous, accepted }) :
    Keeps P (restoreLock e previous accepted config) (fun _ => P) P := by
  unfold restoreLock
  refine keeps_load fun d hd => ?_
  have hC : ∀ s, s = d → P s := fun s hs => hs ▸ hd
  split_ifs with hsame
  · exact keeps_pure hC
  · refine keeps_lift_bind hC fun _ _ => ?_
    exact keeps_save hC fun s hs => hs ▸ hP d hd

theorem keeps_lockRefused {P : Disk → Prop} {previous : Option Bytes} {accepted : Option (List RetainedArtifactRef)}
    {snap : ReviewSnapshot} {problem : Option String} (hP : ∀ d, P d → P { d with lock := previous, accepted }) :
    Keeps P (lockRefused e previous accepted snap problem) (fun _ _ => False) P := by
  unfold lockRefused
  refine keeps_bind (Q := fun _ => P) (keeps_attempt (keeps_restoreLock hP) fun _ _ h => h) fun r => ?_
  split
  · exact keeps_refuse fun _ h => h
  · exact keeps_refuse fun _ h => h
  · exact keeps_refuse fun _ h => h

theorem keeps_lockCommitted {p : Transaction} {snap : ReviewSnapshot} (hs : WellRead e snap) :
    Keeps (Ready e start p) (lockCommitted e p snap) (fun _ => Kept e start) (Kept e start) := by
  unfold lockCommitted
  refine keeps_bind (Q := fun _ => Kept e start) (keeps_within keeps_commit) fun _ => ?_
  refine keeps_bind (Q := fun _ => Kept e start) ?_ fun r => ?_
  · exact keeps_attempt (keeps_storeCopies (fun d name data h _ => h.congr rfl rfl) hs _) fun _ _ h => h
  · split
    · exact keeps_pure fun _ h => h
    · exact keeps_pure fun _ h => h

/-- A begun transaction whose candidate is checked is acceptable with its reviews. -/
theorem acceptable_of_begun {snap : ReviewSnapshot} (hs : WellRead e snap) {p : Transaction} {d : Disk} (h : Begun e start o snap p d)
    (hchecked : checkPublicationVersions e.runtime p = .ok ()) {accepted : List RetainedArtifactRef}
    (hvalid : ∀ r ∈ accepted, r.valid = true) :
    Acceptable e start { p with candidate := acceptedCandidate e p.ledger.items p.candidate accepted } d := by
  refine ⟨h.kept, h.ledger, ?_⟩
  have hi : p.ledger.items = d.items := congrArg PublicationLedger.items h.ledger
  have hitem := itemValid_of_snapshot hs h.candidate o.clock h.texts
  have hproject := ofProject hs h.candidate
  rcases acceptedCandidate_cases (e := e) p.ledger.items p.candidate accepted with heq | ⟨_, hmem⟩
  · rw [heq]
    refine Or.inr ⟨?_, ⟨hproject.dialect, hproject.kinds⟩, h.contents, ?_⟩
    · refine ⟨hitem.review, rfl, ?_, hitem.at_, List.all_eq_true.mpr hvalid, hitem.documents⟩
      have hcovers := hitem.covers
      unfold ArtifactPublication.covers at hcovers ⊢
      simp only [hproject.dialect] at hcovers ⊢
      exact hcovers
    · have hagainst : CheckedAgainst e.runtime d.items p.candidate d.items.length :=
        checkedAgainst_all hi (later_of_checked hchecked)
      exact hagainst
  · exact Or.inl (hi ▸ hmem)

theorem mapError_eq_ok {α ε ε' : Type} {f : ε → ε'} {x : Except ε α} {a : α} (h : x.mapError f = .ok a) : x = .ok a := by
  cases x with
  | error why => cases h
  | ok b =>
    cases h
    rfl

theorem keeps_lockConfirmed (files : Files) (ran : RuntimeLock) (token : String) (refs : Table RetainedArtifactRef)
    (reconcile : Bool) :
    Keeps (Kept e start) (lockConfirmed e o files ran token refs reconcile) (fun _ => Kept e start) (Kept e start) := by
  unfold lockConfirmed
  refine keeps_load fun d hd => ?_
  have hC : ∀ s, s = d → Kept e start s := fun s hs => hs ▸ hd
  refine keeps_lift_bind hC fun snap hsnap => ?_
  obtain ⟨hs, -, -⟩ := confirmedSnapshot_spec hsnap
  split_ifs with hreconcile
  · exact (keeps_reconcileLock hs).weaken hC (fun _ _ h => h) fun _ h => h
  refine keeps_bind (Q := Begun e start o snap) ?_ fun p => ?_
  · exact keeps_within ((keeps_beginPublication hs).weaken hC (fun _ _ h => h) fun _ h => h)
  refine keeps_lift_bind (fun s h => h.kept) fun _ hchecked => ?_
  have hchecked := mapError_eq_ok hchecked
  refine keeps_bind (Q := fun r => Acceptable e start r.1) ?_ fun r => ?_
  · refine keeps_within ?_
    unfold admitProjectArtifactReviews
    refine keeps_load fun s hbegun => ?_
    have hC : ∀ t, t = s → Kept e start t := fun t ht => ht ▸ hbegun.kept
    refine keeps_lift_bind hC fun accepted haccepted => keeps_pure fun t ht => ?_
    subst ht
    exact acceptable_of_begun hs hbegun hchecked fun r hr => ((acceptedReviews_spec haccepted).1 r hr).1
  · obtain ⟨p, accepted⟩ := r
    refine keeps_bind (Q := fun _ => Ready e start p) (keeps_within keeps_stageReview) fun _ => ?_
    have hlock : ∀ d' : Disk, ∀ lock acc rep, Ready e start p d' → Ready e start p { d' with lock, accepted := acc, replaced := rep } :=
      fun d' lock acc rep h => ⟨h.kept.congr rfl rfl, h.ledger, h.candidate⟩
    refine keeps_bind (Q := fun _ => Ready e start p) ?_ fun _ => ?_
    · unfold lockRuntimeProjectAt
      split
      · exact keeps_save (fun _ h => h.kept) fun d' h => hlock d' _ _ _ h
      · exact keeps_pure fun _ h => h
    · refine keeps_load fun after hafter => ?_
      split_ifs
      · exact (keeps_lockCommitted hs).weaken (fun t ht => ht ▸ hafter) (fun _ _ h => h) fun _ h => h
      · refine (keeps_lockRefused (P := Kept e start) fun d' h => h.congr rfl rfl).weaken (fun t ht => ht ▸ hafter.kept) ?_ fun _ h => h
        exact fun _ _ h => h.elim

theorem keeps_reviewProject (files : Files) (token : String) :
    Keeps (Kept e start) (reviewProject e o files token) (fun _ => Kept e start) (Kept e start) := by
  unfold reviewProject
  refine keeps_load fun d hd => ?_
  have hC : ∀ s, s = d → Kept e start s := fun s hs => hs ▸ hd
  refine keeps_lift_bind hC fun snap hsnap => ?_
  obtain ⟨hs, -, -⟩ := confirmedSnapshot_spec hsnap
  refine keeps_bind (Q := fun _ => Kept e start) ?_ fun _ => keeps_pure fun _ h => h
  exact keeps_within ((keeps_beginPublication hs).weaken hC (fun _ _ h => h.kept) fun _ h => h)

/-! ## Dialects -/

theorem keeps_retainPublicationReceipt {request : String} (hform : retainedArtifactDigest request = true) (id : String) :
    Keeps (Kept e start) (retainPublicationReceipt e request id) (fun _ => Kept e start) (Kept e start) := by
  unfold retainPublicationReceipt
  refine keeps_load fun d hd => ?_
  have hC : ∀ s, s = d → Kept e start s := fun s hs => hs ▸ hd
  refine keeps_lift_bind hC fun ledger hledger => ?_
  have hl := readPublicationLedger_ledger hledger
  subst hl
  split
  · split_ifs
    · exact keeps_refuse hC
    · exact keeps_pure hC
  · by_cases hid : d.ledger.items.any (·.id == id) = true
    · rw [if_neg (not_not_intro hid)]
      split_ifs with hcount
      · exact keeps_refuse_bind hC
      · refine keeps_writePublicationLedger hC fun s hs hfits => ?_
        subst hs
        refine ⟨hd.1, fun hsep => ?_⟩
        have hsound := hd.2 hsep
        refine hsound.rewrite rfl hfits (hsound.ledgerSound.receipt e hform ?_ (by omega))
        simpa using hid
    · rw [if_pos hid]
      exact keeps_refuse_bind hC

theorem checkedDialect_spec {id : String} {req : DialectPublicationRequest} {d : DialectOutside} {saved : SavedPreparation}
    {checked : DialectReport} (h : checkedDialect e id req d = .ok (saved, checked)) :
    inputPreparationID id = true ∧ ["asserted", "generated"].contains req.variant = true ∧
      checked.artifactID = dialectArtifactID id req.variant := by
  unfold checkedDialect at h
  by_cases hid : inputPreparationID id = true
  · rw [if_neg (not_not_intro hid)] at h
    split at h
    · cases h
    · by_cases hvariant : ["asserted", "generated"].contains req.variant = true
      · split_ifs at h
        split at h
        · cases h
        · split_ifs at h with hreport
          cases h
          rw [not_or] at hreport
          exact ⟨hid, hvariant, not_not.mp hreport.1⟩
      · rw [if_pos (show ¬["asserted", "generated"].contains req.variant = true from hvariant)] at h
        split_ifs at h
  · rw [if_pos hid] at h
    cases h

theorem dialectArtifactID_ne (id variant : String) : dialectArtifactID id variant ≠ "" := by
  intro h
  have hp := hasPrefix_append "urn:judgmentpack:dialect:" (id ++ ":" ++ variant)
  rw [← String.append_assoc, ← String.append_assoc] at hp
  change hasPrefix (dialectArtifactID id variant) _ = true at hp
  rw [h] at hp
  revert hp
  decide

theorem dialectCandidate_valid {id : String} {req : DialectPublicationRequest} {d : DialectOutside} {saved : SavedPreparation}
    {checked : DialectReport} (hchecked : checkedDialect e id req d = .ok (saved, checked))
    (htexts : ∀ raw ∈ [checked.document, saved.recipe, saved.pack], raw.length ≤ retainedArtifactByteLimit)
    (hversion : req.version ≠ "") {review : Option RetainedArtifactRef} (hreview : ∀ r ∈ review, r.valid = true) :
    ItemValid e { dialectCandidate e o id req saved checked with
      id := publicationID e { dialectCandidate e o id req saved checked with review }, review } := by
  obtain ⟨hid, hvariant, hname⟩ := checkedDialect_spec hchecked
  refine ⟨?_, rfl, ?_, o.clock, rfl, ?_⟩
  · cases review with
    | none => rfl
    | some r => exact hreview r rfl
  · have h₁ := Tools.reference_valid (e := e) (htexts saved.recipe (by simp))
    have h₂ := Tools.reference_valid (e := e) (htexts saved.pack (by simp))
    have h₃ : retainedArtifactDigest (e.digestOf saved.raw) = true := e.digestForm _
    have h₄ : retainedArtifactDigest (e.requestDigest id req.revision req.variant req.version) = true :=
      e.requestForm _ _ _ _
    show DialectPublicationContext.valid _ _ = true
    unfold DialectPublicationContext.valid
    simp only [dialectCandidate, Option.isNone_none, hid, h₁, h₂, h₃, h₄, hvariant, Bool.and_true]
    rfl
  · have h₁ := Tools.reference_valid (e := e) (htexts checked.document (by simp))
    have hne : checked.artifactID ≠ "" := by
      rw [hname]
      exact dialectArtifactID_ne id req.variant
    simp [dialectCandidate, PublishedDocument.valid, h₁, hne, hversion]

theorem dialectCandidate_ofDialect {id : String} {req : DialectPublicationRequest} {saved : SavedPreparation}
    {checked : DialectReport} : (dialectCandidate e o id req saved checked).dialect.isSome = true := rfl

theorem keeps_commitDialect {id : String} {req : DialectPublicationRequest} {d : DialectOutside} {saved : SavedPreparation}
    {checked : DialectReport} (hchecked : checkedDialect e id req d = .ok (saved, checked)) (hversion : req.version ≠ "")
    (hreview : ∀ r ∈ req.review, r.valid = true) (base : String) :
    Keeps (Kept e start) (commitDialect e o id req saved checked (dialectCandidate e o id req saved checked) base) (fun _ => Kept e start)
      (Kept e start) := by
  unfold commitDialect
  refine keeps_load fun s hd => ?_
  have hC : ∀ t, t = s → Kept e start t := fun t ht => ht ▸ hd
  refine keeps_lift_bind hC fun ledger hledger => ?_
  have hl := readPublicationLedger_ledger hledger
  subst hl
  split
  · exact keeps_pure hC
  · split_ifs
    · exact keeps_refuse_bind hC
    · refine keeps_lift_bind hC fun _ hadmits => ?_
      refine keeps_lift_bind hC fun _ hversions => ?_
      refine keeps_lift_bind hC fun _ hput => ?_
      have hvalid := dialectCandidate_valid (o := o) hchecked (putAll_eq_ok hput) hversion hreview
      refine keeps_bind (Q := fun _ => Kept e start) (keeps_commit.weaken ?_ (fun _ _ h => h) fun _ h => h) fun _ =>
        keeps_pure fun _ h => h
      intro t ht
      subst ht
      refine ⟨hd, rfl, Or.inr ⟨hvalid, nofun, ?_, ?_, Or.inl (Or.inr rfl)⟩⟩
      · exact admitPublication_eq_ok.mp hadmits
      · have hall : CheckedAgainst e.runtime t.items _ t.items.length := checkedAgainst_all rfl (later_of_checked hversions)
        exact hall

/-- A review is of a version. -/
theorem artifactReview_version {ref : RetainedArtifactRef} {review : ArtifactReview} (h : artifactReview o ref = .ok review) :
    review.proposedVersion ≠ "" := by
  unfold artifactReview at h
  split_ifs at h
  split at h
  · cases h
  · split_ifs at h with hr
    cases h
    rw [not_or] at hr
    exact hr.1

theorem keeps_releaseDialect {id : String} {req : DialectPublicationRequest} {d : DialectOutside} {saved : SavedPreparation}
    {checked : DialectReport} (hchecked : checkedDialect e id req d = .ok (saved, checked)) (ledger : PublicationLedger) :
    Keeps (Kept e start) (releaseDialect e o id req ledger saved checked (dialectCandidate e o id req saved checked)) (fun _ => Kept e start)
      (Kept e start) := by
  unfold releaseDialect
  have hC : ∀ s, Kept e start s → Kept e start s := fun _ h => h
  refine keeps_unless hC fun _ => ?_
  refine keeps_lift_bind hC fun _ _ => keeps_lift_bind hC fun _ _ => ?_
  by_cases hpublish : ¬req.publish = true
  · rw [if_pos hpublish]
    exact keeps_lift_bind hC fun _ _ => keeps_pure hC
  rw [if_neg hpublish]
  refine keeps_unless hC fun _ => ?_
  split
  · exact keeps_refuse hC
  · next ref href =>
    refine keeps_lift_bind hC fun retained hretained => ?_
    refine keeps_unless hC fun hsame => ?_
    refine keeps_commitDialect hchecked ?_ ?_ _
    · have := artifactReview_version hretained
      have hsame := not_not.mp hsame
      cases hsame
      exact this
    · intro r hr
      rw [href] at hr
      cases hr
      exact artifactReview_valid hretained

theorem keeps_publishCheckedDialect (id : String) (req : DialectPublicationRequest) (d : DialectOutside) :
    Keeps (Kept e start) (publishCheckedDialect e o id req d) (fun _ => Kept e start) (Kept e start) := by
  unfold publishCheckedDialect
  have hC : ∀ s, Kept e start s → Kept e start s := fun _ h => h
  refine keeps_lift_bind hC fun ledger _ => ?_
  simp only
  split
  · exact keeps_pure hC
  · refine keeps_unless hC fun _ => keeps_unless hC fun _ => ?_
    refine keeps_lift_bind hC fun r hchecked => ?_
    obtain ⟨saved, checked⟩ := r
    refine keeps_lift_bind hC fun _ _ => ?_
    split
    · refine keeps_bind (Q := fun _ => Kept e start) (keeps_retainPublicationReceipt (e.requestForm _ _ _ _) _) fun _ => ?_
      exact keeps_pure hC
    · exact keeps_releaseDialect hchecked ledger

/-! ## Runs -/

theorem step_kept (d : Disk) (a : Action) (h : Kept e start d) : Kept e start (step e d a) := by
  unfold step
  cases a.act with
  | outside lock => exact h.congr rfl rfl
  | lock files ran token refs reconcile => exact (keeps_lockConfirmed files ran token refs reconcile).store h
  | review files token => exact (keeps_reviewProject files token).store h
  | dialect id req outside => exact (keeps_publishCheckedDialect id req outside).store h
  | receipt preparation revision variant version id =>
    exact (keeps_retainPublicationReceipt (e.requestForm _ _ _ _) id).store h

theorem run_kept {d : Disk} (h : Kept e start d) (as : List Action) : Kept e start (run (step e) d as) :=
  run_invariant (fun d a => step_kept d a) h as

/-- A project before any publication. -/
def Fresh (d : Disk) : Prop := d.history = none ∧ d.pending = none

theorem Fresh.kept {d : Disk} (h : Fresh d) : Kept e [] d := by
  have hi : d.items = [] := by rw [Disk.items, Disk.ledger, h.1, Option.getD_none]
  refine ⟨List.nil_prefix, fun _ => ⟨?_, ?_, ?_, ?_⟩⟩
  · rw [h.1]
    nofun
  · rw [hi]
    nofun
  · rw [hi]
    intro before p after heq
    simp at heq
  · rw [h.2]
    nofun

/-! ## The law of versions -/

/-- `p` publishes the content of `d` anew: no item before has it. -/
def Anew (items : List ArtifactPublication) (d : PublishedDocument) : Prop :=
  ∀ saved ∈ documentsOf items, saved.kind = d.kind → saved.id = d.id → saved.content ≠ d.content

theorem knownDocument_of_anew {items : List ArtifactPublication} {d : PublishedDocument} (h : Anew items d) :
    knownDocument items d = false := by
  unfold knownDocument
  rw [List.any_eq_false]
  intro saved hs hk
  simp only [PublishedDocument.sameArtifact, Bool.and_eq_true, beq_iff_eq] at hk
  exact h saved hs hk.1.1 hk.1.2 hk.2

theorem kind_of_dialect {p : ArtifactPublication} (h : p.covers = true) (hd : p.dialect.isSome = true) :
    ∀ d ∈ p.documents, d.kind = "dialect" := by
  unfold ArtifactPublication.covers at h
  obtain ⟨c, hc⟩ := Option.isSome_iff_exists.mp hd
  simp only [hc, DialectPublicationContext.valid, Bool.and_eq_true] at h
  have h := h.2
  split at h
  · next d hdocs =>
    intro d' hd'
    rw [hdocs, List.mem_singleton] at hd'
    rw [hd']
    simpa using h
  · cases h

/-- What `p` publishes anew is later than the versions of its artifact before it, imports aside. -/
theorem advances_law {d : Disk} (h : Sound e d) {before after : List ArtifactPublication} {p : ArtifactPublication}
    (heq : d.items = before ++ p :: after) (himported : p.imported = false) {doc : PublishedDocument} (hdoc : doc ∈ p.documents)
    (hnew : Anew before doc) :
    (∀ q ∈ before, q.imported = false → ∀ saved ∈ q.documents, saved.kind = doc.kind → saved.id = doc.id →
        e.runtime.compare saved.version doc.version = some .greater) ∧
      ∃ k ≤ before.length, (∀ q ∈ before.take k, ∀ saved ∈ q.documents, saved.kind = doc.kind → saved.id = doc.id →
          e.runtime.compare saved.version doc.version = some .greater) ∧
        ∀ q ∈ before.drop k, q.imported = true ∨ q.dialect.isSome = true ∧ p.dialect = none := by
  obtain ⟨k, hk, hlater, haside, hall⟩ := h.advances before p after heq himported
  have hitem : ∀ q ∈ d.items, ItemValid e q := h.ledgerSound.items
  have htake : ∀ q ∈ before.take k, ∀ saved ∈ q.documents, saved.kind = doc.kind → saved.id = doc.id →
      e.runtime.compare saved.version doc.version = some .greater := by
    intro q hq saved hs hkind hid
    refine hlater doc hdoc (knownDocument_of_anew fun s hs' => hnew s ?_) saved (mem_documentsOf.mpr ⟨q, hq, hs⟩) ?_
    · obtain ⟨r, hr, hsr⟩ := mem_documentsOf.mp hs'
      exact mem_documentsOf.mpr ⟨r, List.mem_of_mem_take hr, hsr⟩
    · simp [PublishedDocument.sameArtifact, hkind, hid]
  have hrest : ∀ q ∈ before.drop k, q.imported = true ∨ q.dialect.isSome = true ∧ p.dialect = none := by
    intro q hq
    refine (haside q hq).imp_right fun hd => ⟨hd, ?_⟩
    by_contra hp
    rw [hall (Option.isSome_iff_ne_none.mpr hp), List.drop_length] at hq
    cases hq
  refine ⟨?_, k, hk, htake, hrest⟩
  intro q hq hqi saved hs hkind hid
  rw [← List.take_append_drop k before] at hq
  rcases List.mem_append.mp hq with hq | hq
  · exact htake q hq saved hs hkind hid
  · rcases hrest q hq with hi | ⟨hd, hp⟩
    · rw [hi] at hqi
      cases hqi
    · have hmem : q ∈ d.items := heq ▸ List.mem_append_left _ (List.mem_of_mem_drop hq)
      have hpm : p ∈ d.items := heq ▸ List.mem_append_right _ (List.mem_cons_self ..)
      have h₁ := kind_of_dialect (hitem q hmem).covers hd saved hs
      have h₂ := (h.kinds p hpm hp).kinds doc hdoc
      rw [← hkind, h₁] at h₂
      rcases h₂ with h₂ | h₂ <;> exact absurd h₂ (by decide)

/-- A digest of 64 digits. -/
def markOf (n : Nat) : String := String.ofList (List.replicate 63 '0' ++ [hexDigit (n % 16)])

theorem markOf_form (n : Nat) : retainedArtifactDigest (markOf n) = true := by
  have h : isLowerHex (hexDigit (n % 16)) = true := isLowerHex_hexDigit (Nat.mod_lt _ (by decide))
  have h0 : isLowerHex '0' = true := by decide
  simp [retainedArtifactDigest, hexForm, hasPrefix, markOf, h, h0]

/-- It tells the texts of the sample apart, as SHA-256 does. -/
def sampleDigest (raw : Bytes) : String := markOf (raw.foldl (fun n b => n + b.toNat) 0)

def rankOf (v : String) : Option Nat := if v = "3.0.0" then some 3 else if v = "5.0.0" then some 5 else none

/-- Version 3 is locked and the process stops before the commit; another lock of version 5 is entered; the first comes back. -/
def sampleRuntime : Runtime where
  compare base candidate :=
    match rankOf base, rankOf candidate with
    | some b, some c => some (if b < c then .greater else if c < b then .lower else .equal)
    | _, _ => none
  choice _ _ := none
  version := by
    have hv : ∀ v n, rankOf v = some n → '/' ∉ v.toList := by
      intro v n h
      unfold rankOf at h
      split_ifs at h with h₁ h₂
      · rw [h₁]; decide
      · rw [h₂]; decide
    intro base candidate answer h
    split at h
    · next b c hb hc => exact ⟨hv _ _ hb, hv _ _ hc⟩
    · cases h

/-- The lock of a configuration with one pack. -/
def sampleLock (n : UInt8) : LockDocument where
  config := "sha256:" ++ sampleDigest [1]
  packs := Table.empty.set "a" { path := "p.json", digest := "sha256:" ++ sampleDigest [n] }

def sampleTools : Tools where
  digestOf := sampleDigest
  publicationDigest p := String.join (p.documents.map (·.content.sha256) ++ p.reviews.map (·.sha256))
  publicationSize _ := 0
  ledgerSize _ := 0
  manifest _ := { sha256 := markOf 0, bytes := 0 }
  revisionDigest _ _ _ := markOf 0
  requestDigest _ _ _ _ := markOf 0
  token _ _ := ""
  head raw := if raw = [3] then some ("P", "3.0.0") else if raw = [5] then some ("P", "5.0.0") else none
  lockDocument raw := if raw = [11] then some (sampleLock 3) else if raw = [12] then some (sampleLock 5) else none
  declared raw := if raw = [1] then some { packs := Table.empty.set "a" "p.json" } else some {}
  wireRelativePath := some
  runtime := sampleRuntime
  digestForm _ := markOf_form _
  requestForm _ _ _ _ := markOf_form _
  configPath := rfl
  lockPath := rfl

def sampleFiles (n : UInt8) : Files := fun name =>
  if name = "jpack.json" then some [1] else if name = "p.json" then some [n] else none

def sampleReview : ArtifactReview where
  target := "urn:judgmentpack:project-review:pack:a"
  basePublication := ""
  storageRevision := markOf 0
  candidate := { sha256 := sampleDigest [3], bytes := 1 }
  proposedVersion := "3.0.0"
  impact := { classification := "initial", rationale := "first" }
  dependencies := [{ sha256 := markOf 0, bytes := 0 }, { sha256 := sampleDigest [1], bytes := 1 }]

def sampleOutside : Outside where
  now := "2026-01-01T00:00:00Z"
  clock := by decide
  keeps _ := true
  retained _ := some sampleReview
  latest _ := true

def sampleAct (saves : Nat) (act : Act) : Action := { act, outside := sampleOutside, saves }

/-- Version 3 is locked and the process stops before the commit; another lock of version 5 is entered; the first comes back. -/
def sampleRun : List Action :=
  [sampleAct 4 (.lock (sampleFiles 3) { wrote := some [11], problem := none } "" (Table.empty.set "pack:a" { sha256 := markOf 7, bytes := 9 }) false),
   sampleAct 0 (.outside (some [12])),
   sampleAct 9 (.review (sampleFiles 5) ""),
   sampleAct 0 (.outside (some [11])),
   sampleAct 9 (.review (sampleFiles 3) "")]

def sampleDocument (n : UInt8) (version : String) : PublishedDocument where
  kind := "pack"
  boundAs := "a"
  id := "P"
  version := version
  path := "p.json"
  content := { sha256 := sampleDigest [n], bytes := 1 }

/-- The publication of the sample's pack. -/
def sampleItem (n : UInt8) (version : String) (imported : Bool) (reviews : List RetainedArtifactRef) : ArtifactPublication where
  id := String.join (sampleDigest [n] :: reviews.map (·.sha256))
  at_ := "2026-01-01T00:00:00Z"
  imported := imported
  config := some { sha256 := sampleDigest [1], bytes := 1 }
  documents := [sampleDocument n version]
  reviews := reviews

theorem sampleRun_items : (run (step sampleTools) {} sampleRun).items =
    [sampleItem 5 "5.0.0" true [], sampleItem 3 "3.0.0" false [{ sha256 := markOf 7, bytes := 9 }]] := by decide +kernel

theorem sampleRun_separate : Separate sampleTools (run (step sampleTools) {} sampleRun).items := by
  rw [sampleRun_items]
  unfold Separate
  decide +kernel

end Publication

end Desk
