import Desk.Publication.LockSound

/-!
# Locks over time

A run keeps the history of every lock it writes over, where a confirmation that
is stopped after the Runtime's lock finds no older item of its content without
the reviews submitted to it.
-/

namespace Desk

namespace Publication

open Saves

variable {e : Tools} {o : Outside} {texts : List Bytes} {pubs : List ArtifactPublication} {d₀ : Disk}

theorem pinsSet_spec {lock : Option Bytes} {set : ReviewSet} (h : pinsSet e lock set = true) :
    lock.bind (lockedSet e) = some set := by
  cases lock with
  | none => cases h
  | some raw =>
    unfold pinsSet at h
    rw [Bool.and_eq_true] at h
    obtain ⟨pinned, hpinned, hequal⟩ := (Option.any_eq_true ..).mp h.2
    have heq : pinned = set := of_decide_eq_true hequal
    exact hpinned.trans (congrArg some heq)

theorem mem_replaced {wrote : Bytes} {set : ReviewSet} {accepted : List RetainedArtifactRef} {d : Disk} {r : Replaced}
    (h : r ∈ (runtimeLocks e wrote set accepted d).replaced) :
    r ∈ d.replaced ∨ ∃ lock, d.lock = some lock ∧ r = { lock, accepted := d.accepted, items := d.items } := by
  unfold runtimeLocks at h
  cases hlock : d.lock with
  | none =>
    rw [hlock] at h
    exact Or.inl h
  | some lock =>
    rw [hlock] at h
    rcases List.mem_cons.mp h with rfl | h
    · exact Or.inr ⟨lock, rfl, rfl⟩
    · exact Or.inl h

/-! ## What a confirmation leaves -/

/-- Where the ledger has the candidate's content, it has it with every review submitted. -/
def TwinCarries (items : List ArtifactPublication) (candidate : ArtifactPublication) (refs : Table RetainedArtifactRef) : Prop :=
  ∀ v ∈ items, v.content = candidate.content →
    ∃ q ∈ items, q.content = candidate.content ∧ ∀ key ref, refs.get? key = some ref → ref ∈ q.reviews

/-- Where a confirmation ends: what the lock was accepted with can be recovered, unless it is a new lock left uncommitted. -/
structure Left (e : Tools) (texts : List Bytes) (pubs : List ArtifactPublication) (d₀ : Disk) (twin : Prop) (d : Disk) : Prop where
  base : Base e texts d
  recoverable : (∀ v, d.pending = some v → Among pubs v) → twin ∨ d.lock = d₀.lock → Recoverable e texts d

theorem Unstaged.left {d : Disk} {twin : Prop} (h : Unstaged e texts d₀ d) : Left e texts pubs d₀ twin d :=
  ⟨h.base, fun _ _ => h.recoverable⟩

/-- The lock found, put back over such items, is recoverable. -/
def Back (e : Tools) (texts : List Bytes) (d₀ : Disk) (items : List ArtifactPublication) : Prop :=
  ∀ d : Disk, d.lock = d₀.lock → d.accepted = d₀.accepted → (∀ q ∈ items, q ∈ d.items) → Recoverable e texts d

theorem Entered.back {ledger : PublicationLedger} {d : Disk} (h : Entered e texts pubs d₀ ledger d) : Back e texts d₀ d.items :=
  fun _ hl ha hi => (h.settled.congr (hl.trans h.lock.symm) (ha.trans h.accepted.symm) hi).recoverable

theorem Entered.stage {ledger : PublicationLedger} {d : Disk} (h : Entered e texts pubs d₀ ledger d)
    (pending : Option ArtifactPublication) : Entered e texts pubs d₀ ledger { d with pending } :=
  ⟨h.base.congr rfl rfl, h.lock, h.accepted, h.ledger, h.grows, h.ids, h.among, h.settled.congr rfl rfl fun _ hq => hq, h.kept,
    h.fresh⟩

/-- What was accepted for a candidate. -/
structure Admitted (e : Tools) (o : Outside) (d₀ : Disk) (snap : ReviewSnapshot) (refs : Table RetainedArtifactRef)
    (built : ArtifactPublication) (p : Transaction) (accepted : List RetainedArtifactRef) : Prop where
  publication : publicationFromSnapshot e snap o.now = .ok built
  submitted : ∀ r ∈ accepted, Submitted refs r
  closed : ∀ set, d₀.lock.bind (lockedSet e) = some set → ClosureOf set built → accepted = []
  candidate : accepted ≠ [] → p.candidate.reviews = accepted ∧ p.candidate.content = built.content ∧
    p.candidate.id = publicationID e p.candidate

theorem admitted_of_accepted {snap : ReviewSnapshot} (hlock : snap.lock = d₀.lock) {refs : Table RetainedArtifactRef}
    {copies : Table Bytes} {p : Transaction} {accepted : List RetainedArtifactRef}
    (hbuilt : publicationFromSnapshot e snap o.now = .ok p.candidate) (h : acceptedReviews e o copies snap p refs = .ok accepted) :
    Admitted e o d₀ snap refs p.candidate { p with candidate := acceptedCandidate e p.ledger.items p.candidate accepted } accepted where
  publication := hbuilt
  submitted := (acceptedReviews_spec h).1
  closed := fun set hset hp => acceptedReviews_closed h (by rw [hlock]; exact hset) hp
  candidate := by
    intro hne
    rcases acceptedCandidate_cases (e := e) p.ledger.items p.candidate accepted with heq | ⟨hnil, _⟩
    · rw [heq]
      exact ⟨rfl, rfl, rfl⟩
    · exact absurd hnil hne

/-- The Runtime has run: the lock is the one found, or one accepted with nothing, or the snapshot's. -/
structure Written (e : Tools) (texts : List Bytes) (pubs : List ArtifactPublication) (d₀ : Disk) (snap : ReviewSnapshot)
    (built : ArtifactPublication) (p : Transaction) (accepted : List RetainedArtifactRef) (d : Disk) : Prop where
  base : Base e texts d
  ledger : p.ledger = d.ledger
  pending : d.pending = some p.candidate
  back : Back e texts d₀ d.items
  grows : ∀ v ∈ d₀.items, v ∈ d.items
  ids : ∀ v ∈ d.items, v.id = publicationID e v
  among : ∀ v ∈ d.items, Among pubs v
  old : accepted ≠ [] → ∀ v ∈ d.items, v.content = built.content → v ∈ d₀.items
  lock : d.lock = d₀.lock ∧ d.accepted = d₀.accepted ∨ d.accepted = none ∨
    d.accepted = some accepted ∧ LockOf e texts d snap built

section
variable {snap : ReviewSnapshot} {refs : Table RetainedArtifactRef} {built : ArtifactPublication} {p : Transaction}
  {accepted : List RetainedArtifactRef} (hadm : Admitted e o d₀ snap refs built p accepted)
include hadm

theorem Written.left {d : Disk} (h : Written e texts pubs d₀ snap built p accepted d) :
    Left e texts pubs d₀ (TwinCarries d₀.items built refs) d := by
  refine ⟨h.base, fun _ hor => ?_⟩
  rcases h.lock with ⟨hl, ha⟩ | hnone | ⟨hacc, hlockOf⟩
  · exact h.back d hl ha fun _ hq => hq
  · intro refs' ha
    rw [hnone] at ha
    cases ha
  · intro refs' ha hne
    rw [hacc] at ha
    cases ha
    refine ⟨snap, built, hlockOf, ?_⟩
    rcases hor with htwin | hl
    · by_cases hex : ∃ v ∈ d.items, v.content = built.content
      · obtain ⟨v, hv, hvc⟩ := hex
        obtain ⟨q, hq, hqc, hrefs⟩ := htwin v (h.old hne v hv hvc) hvc
        refine Or.inl ⟨q, h.grows q hq, hqc, fun ref href => ?_⟩
        obtain ⟨_, key, hkey⟩ := hadm.submitted ref href
        exact hrefs key ref hkey
      · obtain ⟨hreviews, hcontent, _⟩ := hadm.candidate hne
        refine Or.inr ⟨p.candidate, h.pending, hcontent, by rw [hreviews]; exact fun _ hr => hr, ?_⟩
        intro x hx hxc
        exact hex ⟨x, hx, hxc⟩
    · -- the Runtime left the lock it found: its closure needed no review
      have hset := hlockOf.lock
      rw [hl] at hset
      exact absurd (hadm.closed _ hset (closureOf_snapshot hlockOf.read hadm.publication)) hne

/-- Committed, the candidate is an item with the reviews it was accepted with. -/
theorem Written.committed (hA : Apart e texts pubs) {d : Disk} (h : Written e texts pubs d₀ snap built p accepted d) :
    Left e texts pubs d₀ True { d with history := some (withCandidate p.ledger p.candidate) } := by
  refine ⟨h.base.congr rfl rfl, fun hpubs _ => ?_⟩
  have hgrown : ∀ q ∈ d.items, q ∈ (withCandidate p.ledger p.candidate).items := by
    intro q hq
    rw [h.ledger]
    unfold withCandidate
    split_ifs
    · exact hq
    · exact List.mem_append_left _ hq
  rcases h.lock with ⟨hl, ha⟩ | hnone | ⟨hacc, hlockOf⟩
  · exact h.back _ hl ha hgrown
  · intro refs' ha
    have ha : d.accepted = some refs' := ha
    rw [hnone] at ha
    cases ha
  · intro refs' ha hne
    have ha : d.accepted = some refs' := ha
    rw [hacc] at ha
    cases ha
    obtain ⟨hreviews, hcontent, hid⟩ := hadm.candidate hne
    refine ⟨snap, built, hlockOf.congr rfl, Or.inl ?_⟩
    show Carried (withCandidate p.ledger p.candidate).items built accepted
    rw [h.ledger]
    unfold withCandidate
    split_ifs with hany
    · obtain ⟨q, hq, hqid⟩ := List.any_eq_true.mp hany
      have hqid : publicationID e q = publicationID e p.candidate := by
        rw [← hid, ← h.ids q hq]
        exact eq_of_beq hqid
      have hbare : q.bare = p.candidate.bare := hA.bare (h.among q hq) (hpubs p.candidate h.pending) hqid
      refine ⟨q, hq, ?_, ?_⟩
      · rw [← hcontent, ← content_bare, hbare, content_bare]
      · have hr : q.reviews = accepted := (congrArg ArtifactPublication.reviews hbare).trans hreviews
        rw [hr]
        exact fun _ hr => hr
    · refine ⟨p.candidate, List.mem_append_right _ (List.mem_singleton.mpr rfl), hcontent, ?_⟩
      rw [hreviews]
      exact fun _ hr => hr

end

/-! ## One confirmation -/

theorem Left.copy {twin : Prop} {d : Disk} (h : Left e texts pubs d₀ twin d) {name : String} {data : Bytes} (hd : data ∈ texts) :
    Left e texts pubs d₀ twin { d with copies := d.copies.set name data } := by
  refine ⟨h.base.copy hd, fun hp hor refs ha hne => ?_⟩
  obtain ⟨snap, p, hl, hc⟩ := h.recoverable hp hor refs ha hne
  exact ⟨snap, p, hl.congr rfl, hc⟩

theorem Left.weaken {twin twin' : Prop} {d : Disk} (h : Left e texts pubs d₀ twin d) (ht : twin' → twin) :
    Left e texts pubs d₀ twin' d := ⟨h.base, fun hp hor => h.recoverable hp (hor.imp_left ht)⟩

section
variable {snap : ReviewSnapshot} {refs : Table RetainedArtifactRef} {built : ArtifactPublication} {p : Transaction}
  {accepted : List RetainedArtifactRef} (hadm : Admitted e o d₀ snap refs built p accepted) (hs : WellRead e snap)
  (hst : ∀ t ∈ snap.texts, t ∈ texts)
include hadm hs hst

theorem keeps_lockCommitted_left (hA : Apart e texts pubs) :
    Keeps (Written e texts pubs d₀ snap built p accepted) (lockCommitted e p snap) (fun _ => Left e texts pubs d₀ True)
      (Left e texts pubs d₀ (TwinCarries d₀.items built refs)) := by
  unfold lockCommitted
  refine keeps_bind (Q := fun _ => Left e texts pubs d₀ True) (keeps_within ?_) fun _ => ?_
  · exact keeps_writePublicationLedger (fun _ h => h.left hadm) fun _ h _ => h.committed hadm hA
  · refine keeps_bind (Q := fun _ => Left e texts pubs d₀ True) ?_ fun r => ?_
    · have hcopies := keeps_storeCopies (P := Left e texts pubs d₀ True) (fun _ _ _ h hdata => h.copy (hst _ hdata)) hs
        (snap.set.config :: snap.set.entries.map (·.digest))
      exact (keeps_attempt hcopies fun _ _ h => h).weaken (fun _ h => h) (fun _ _ h => h) fun _ h => h.weaken fun _ => trivial
    · split
      · exact keeps_pure fun _ h => h
      · exact keeps_pure fun _ h => h

omit hs hst in
theorem keeps_lockRefused_left {problem : Option String} :
    Keeps (Written e texts pubs d₀ snap built p accepted) (lockRefused e d₀.lock d₀.accepted snap problem)
      (fun _ => Left e texts pubs d₀ True) (Left e texts pubs d₀ (TwinCarries d₀.items built refs)) := by
  unfold lockRefused
  refine keeps_bind (Q := fun _ => Left e texts pubs d₀ (TwinCarries d₀.items built refs)) ?_ fun r => ?_
  · refine keeps_attempt ?_ fun _ _ h => h
    unfold restoreLock
    refine keeps_load fun d hd => ?_
    split_ifs
    · exact keeps_pure fun s hs => hs ▸ hd.left hadm
    · refine keeps_lift_bind (fun s hs => hs ▸ hd.left hadm) fun _ _ => ?_
      refine keeps_save (fun s hs => hs ▸ hd.left hadm) fun s hs => ?_
      subst hs
      exact ⟨hd.base.congr rfl rfl, fun _ _ => hd.back _ rfl rfl fun _ hq => hq⟩
  · split
    · exact keeps_refuse fun _ h => h
    · exact keeps_refuse fun _ h => h
    · exact keeps_refuse fun _ h => h

end

/-- The candidate is staged, the lock found entered. -/
structure Poised (e : Tools) (texts : List Bytes) (pubs : List ArtifactPublication) (d₀ : Disk) (p : Transaction) (d : Disk) : Prop where
  entered : Entered e texts pubs d₀ p.ledger d
  pending : d.pending = some p.candidate

section
variable {snap : ReviewSnapshot} {refs : Table RetainedArtifactRef} {built : ArtifactPublication} {p : Transaction}
  {accepted : List RetainedArtifactRef} (hadm : Admitted e o d₀ snap refs built p accepted) (hs : WellRead e snap)
  (hst : ∀ t ∈ snap.texts, t ∈ texts)
include hadm

/-- An item of the candidate's content is older than the lock found, or the candidate needed no review. -/
theorem Poised.old {d : Disk} (h : Poised e texts pubs d₀ p d) (hne : accepted ≠ []) :
    ∀ v ∈ d.items, v.content = built.content → v ∈ d₀.items := by
  intro v hv hvc
  rcases h.entered.fresh v hv with hold | ⟨prior, hprior, hclosure⟩
  · exact hold
  · rw [h.entered.lock] at hprior
    exact absurd (hadm.closed prior hprior (hclosure.of_content hvc.symm)) hne

theorem Poised.written {d : Disk} (h : Poised e texts pubs d₀ p d) : Written e texts pubs d₀ snap built p accepted d where
  base := h.entered.base
  ledger := h.entered.ledger
  pending := h.pending
  back := h.entered.back
  grows := h.entered.grows
  ids := h.entered.ids
  among := h.entered.among
  old := h.old hadm
  lock := Or.inl ⟨h.entered.lock, h.entered.accepted⟩

include hs hst in
/-- The Runtime writes over the lock found, whose closure is an item. -/
theorem Poised.runtimeLocks {d : Disk} (h : Poised e texts pubs d₀ p d) (wrote : Bytes) :
    Written e texts pubs d₀ snap built p accepted (runtimeLocks e wrote snap.set accepted d) where
  base := by
    refine ⟨h.entered.base.copies, ?_⟩
    intro r hr
    rcases mem_replaced hr with hr | ⟨lock, hlock, rfl⟩
    · exact h.entered.base.replaced r hr
    · intro prior hprior
      exact h.entered.kept prior (by rw [hlock]; exact hprior)
  ledger := h.entered.ledger
  pending := h.pending
  back := h.entered.back
  grows := h.entered.grows
  ids := h.entered.ids
  among := h.entered.among
  old := h.old hadm
  lock := by
    unfold Publication.runtimeLocks
    by_cases hpins : pinsSet e (some wrote) snap.set = true
    · rw [if_pos hpins]
      exact Or.inr (Or.inr ⟨rfl, hs, hst, pinsSet_spec hpins, _, _, hadm.publication, rfl⟩)
    · rw [if_neg hpins]
      exact Or.inr (Or.inl rfl)

end

/-! ## Dialects -/

/-- Only items of dialects entered the ledger. -/
structure Grown (d₀ d : Disk) : Prop where
  lock : d.lock = d₀.lock
  pending : d.pending = d₀.pending
  copies : d.copies = d₀.copies
  accepted : d.accepted = d₀.accepted
  replaced : d.replaced = d₀.replaced
  items : ∀ v ∈ d₀.items, v ∈ d.items
  dialects : ∀ v ∈ d.items, v ∈ d₀.items ∨ v.dialect.isSome = true

theorem Grown.refl (d : Disk) : Grown d d := ⟨rfl, rfl, rfl, rfl, rfl, fun _ h => h, fun _ h => Or.inl h⟩

theorem Grown.write {d : Disk} (h : Grown d₀ d) {ledger : PublicationLedger} (hi : ∀ v ∈ d.items, v ∈ ledger.items)
    (hd : ∀ v ∈ ledger.items, v ∈ d.items ∨ v.dialect.isSome = true) : Grown d₀ { d with history := some ledger } where
  lock := h.lock
  pending := h.pending
  copies := h.copies
  accepted := h.accepted
  replaced := h.replaced
  items := fun v hv => hi v (h.items v hv)
  dialects := fun v hv => (hd v hv).elim (h.dialects v) Or.inr

theorem keeps_retainPublicationReceipt_grown (request id : String) :
    Keeps (Grown d₀) (retainPublicationReceipt e request id) (fun _ => Grown d₀) (Grown d₀) := by
  unfold retainPublicationReceipt
  refine keeps_load fun d hd => ?_
  have hC : ∀ s, s = d → Grown d₀ s := fun s hs => hs ▸ hd
  refine keeps_lift_bind hC fun ledger hledger => ?_
  have hl := readPublicationLedger_ledger hledger
  subst hl
  split
  · split_ifs
    · exact keeps_refuse hC
    · exact keeps_pure hC
  · refine keeps_unless hC fun _ => keeps_unless hC fun _ => ?_
    refine keeps_writePublicationLedger hC fun s hs _ => ?_
    subst hs
    exact hd.write (fun _ hv => hv) fun _ hv => Or.inl hv

theorem keeps_commitDialect_grown {id : String} {req : DialectPublicationRequest} {saved : SavedPreparation}
    {checked : DialectReport} (base : String) :
    Keeps (Grown d₀) (commitDialect e o id req saved checked (dialectCandidate e o id req saved checked) base)
      (fun _ => Grown d₀) (Grown d₀) := by
  unfold commitDialect
  refine keeps_load fun d hd => ?_
  have hC : ∀ s, s = d → Grown d₀ s := fun s hs => hs ▸ hd
  refine keeps_lift_bind hC fun ledger hledger => ?_
  have hl := readPublicationLedger_ledger hledger
  subst hl
  split
  · exact keeps_pure hC
  · refine keeps_unless hC fun _ => ?_
    refine keeps_lift_bind hC fun _ _ => keeps_lift_bind hC fun _ _ => keeps_lift_bind hC fun _ _ => ?_
    refine keeps_bind (Q := fun _ => Grown d₀) ?_ fun _ => keeps_pure fun _ h => h
    refine keeps_writePublicationLedger hC fun s hs _ => ?_
    subst hs
    refine hd.write (fun v hv => ?_) fun v hv => ?_
    · unfold withCandidate
      split_ifs
      · exact hv
      · exact List.mem_append_left _ hv
    · unfold withCandidate at hv
      split_ifs at hv
      · exact Or.inl hv
      · rcases List.mem_append.mp hv with hv | hv
        · exact Or.inl hv
        · rw [List.mem_singleton.mp hv]
          exact Or.inr rfl

theorem keeps_publishCheckedDialect_grown (id : String) (req : DialectPublicationRequest) (d : DialectOutside) :
    Keeps (Grown d₀) (publishCheckedDialect e o id req d) (fun _ => Grown d₀) (Grown d₀) := by
  unfold publishCheckedDialect
  have hC : ∀ s, Grown d₀ s → Grown d₀ s := fun _ h => h
  refine keeps_lift_bind hC fun ledger _ => ?_
  simp only
  split
  · exact keeps_pure hC
  · refine keeps_unless hC fun _ => keeps_unless hC fun _ => ?_
    refine keeps_lift_bind hC fun r _ => keeps_lift_bind hC fun _ _ => ?_
    split
    · refine keeps_bind (Q := fun _ => Grown d₀) (keeps_retainPublicationReceipt_grown _ _) fun _ => ?_
      exact keeps_pure hC
    · unfold releaseDialect
      refine keeps_unless hC fun _ => ?_
      refine keeps_lift_bind hC fun _ _ => keeps_lift_bind hC fun _ _ => ?_
      by_cases hpublish : ¬req.publish = true
      · rw [if_pos hpublish]
        exact keeps_lift_bind hC fun _ _ => keeps_pure hC
      rw [if_neg hpublish]
      refine keeps_unless hC fun _ => ?_
      split
      · exact keeps_refuse hC
      · refine keeps_lift_bind hC fun _ _ => ?_
        exact keeps_unless hC fun _ => keeps_commitDialect_grown _

/-- A dialect's item has no project's content. -/
theorem Grown.recoverable {d : Disk} (h : Grown d₀ d) (hr : Recoverable e texts d₀) : Recoverable e texts d := by
  intro refs ha hne
  obtain ⟨snap, p, hlock, hor⟩ := hr refs (h.accepted ▸ ha) hne
  refine ⟨snap, p, hlock.congr h.lock, ?_⟩
  rcases hor with ⟨q, hq, hqc, hrefs⟩ | ⟨q, hpend, hqc, hrefs, hnone⟩
  · exact Or.inl ⟨q, h.items q hq, hqc, hrefs⟩
  · refine Or.inr ⟨q, h.pending.trans hpend, hqc, hrefs, ?_⟩
    intro x hx hxc
    rcases h.dialects x hx with hold | hdialect
    · exact hnone x hold hxc
    · obtain ⟨now, p₀, hp₀, hc⟩ := hlock.content
      have hx : x.content.dialect = p₀.content.dialect := by rw [hxc, hc]
      have hx : x.dialect = p₀.dialect := hx
      rw [hx, (ofProject hlock.read hp₀).dialect] at hdialect
      cases hdialect

/-! ## A step -/

/-- The snapshot an action confirms. -/
def Confirms (e : Tools) (d : Disk) (a : Action) (snap : ReviewSnapshot) : Prop :=
  match a.act with
  | .lock files _ token _ _ => confirmedSnapshot e files d.lock token = .ok snap
  | .review files token => confirmedSnapshot e files d.lock token = .ok snap
  | _ => False

/-- What an action reads and writes is among the texts and publications of the run. -/
structure Within (e : Tools) (texts : List Bytes) (pubs : List ArtifactPublication) (d : Disk) (a : Action) : Prop where
  texts : ∀ snap, Confirms e d a snap → ∀ t ∈ snap.texts, t ∈ texts
  found : ∀ snap prior old p, Confirms e d a snap → snap.lock.bind (lockedSet e) = some prior →
    priorSnapshot e d.copies snap prior = .ok old → publicationFromSnapshot e old a.outside.now = .ok p → Among pubs p
  items : ∀ v ∈ (step e d a).items, Among pubs v
  pending : ∀ v, (step e d a).pending = some v → Among pubs v

/-- A confirmation that put a lock in place went on to its commit, or its content is no older item's but with the reviews
submitted. -/
def Unparted (e : Tools) (d : Disk) (a : Action) : Prop :=
  match a.act with
  | .lock files ran token refs reconcile =>
    (∃ answer, (lockConfirmed e a.outside files ran token refs reconcile a.saves d).ending = .done answer) ∨
      (step e d a).lock = d.lock ∨
      ∀ snap built, Confirms e d a snap → publicationFromSnapshot e snap a.outside.now = .ok built → TwinCarries d.items built refs
  | _ => True

section
variable (hA : Apart e texts pubs) (hd₀ : Steady e texts pubs d₀)
include hA hd₀

theorem keeps_lockConfirmed_left (files : Files) (ran : RuntimeLock) (token : String) (refs : Table RetainedArtifactRef)
    (reconcile : Bool) (htexts : ∀ snap, confirmedSnapshot e files d₀.lock token = .ok snap → ∀ t ∈ snap.texts, t ∈ texts)
    (hfound : ∀ snap prior old p, confirmedSnapshot e files d₀.lock token = .ok snap →
      snap.lock.bind (lockedSet e) = some prior → priorSnapshot e d₀.copies snap prior = .ok old →
      publicationFromSnapshot e old o.now = .ok p → Among pubs p) :
    Keeps (fun d => d = d₀) (lockConfirmed e o files ran token refs reconcile) (fun _ => Left e texts pubs d₀ True)
      (Left e texts pubs d₀ (∀ snap built, confirmedSnapshot e files d₀.lock token = .ok snap →
        publicationFromSnapshot e snap o.now = .ok built → TwinCarries d₀.items built refs)) := by
  unfold lockConfirmed
  refine keeps_load fun d hd => ?_
  subst hd
  have hC : ∀ s, s = d → Left e texts pubs d (∀ snap built, confirmedSnapshot e files d.lock token = .ok snap →
      publicationFromSnapshot e snap o.now = .ok built → TwinCarries d.items built refs) s := by
    rintro s rfl
    exact hd₀.unstaged.left
  refine keeps_lift_bind hC fun snap hsnap => ?_
  obtain ⟨hs, hlock, -⟩ := confirmedSnapshot_spec hsnap
  have hst := htexts snap hsnap
  have hbegin := keeps_beginPublication_opened (o := o) hA hd₀ hs hst hlock fun prior old p => hfound snap prior old p hsnap
  split_ifs with hreconcile
  · unfold reconcileLock
    refine keeps_load fun d' hd' => ?_
    subst hd'
    split
    · refine keeps_bind (Q := Opened e texts pubs o d' snap) ?_ fun p => keeps_pure fun s h => ?_
      · exact keeps_within (hbegin.weaken (fun _ h => h) (fun _ _ h => h) fun _ h => h.left)
      · exact h.entered.unstaged.left
    · exact keeps_refuse hC
  · refine keeps_bind (Q := Opened e texts pubs o d snap) ?_ fun p => ?_
    · exact keeps_within (hbegin.weaken (fun _ h => h) (fun _ _ h => h) fun _ h => h.left)
    refine keeps_lift_bind (fun s h => h.entered.unstaged.left) fun _ _ => ?_
    refine keeps_bind (Q := fun r s => Admitted e o d snap refs p.candidate r.1 r.2 ∧ Entered e texts pubs d r.1.ledger s) ?_
      fun r => ?_
    · refine keeps_within ?_
      unfold admitProjectArtifactReviews
      refine keeps_load fun s hopened => ?_
      refine keeps_lift_bind (fun t ht => ht ▸ hopened.entered.unstaged.left) fun accepted haccepted => ?_
      refine keeps_pure fun t ht => ?_
      subst ht
      exact ⟨admitted_of_accepted hlock hopened.candidate haccepted, hopened.entered⟩
    · obtain ⟨q, accepted⟩ := r
      refine keeps_assume fun hadm => ?_
      have hC : ∀ s, Left e texts pubs d (TwinCarries d.items p.candidate refs) s →
          Left e texts pubs d (∀ snap built, confirmedSnapshot e files d.lock token = .ok snap →
            publicationFromSnapshot e snap o.now = .ok built → TwinCarries d.items built refs) s :=
        fun s h => h.weaken fun htwin => htwin snap p.candidate hsnap hadm.publication
      refine keeps_bind (Q := fun _ => Poised e texts pubs d q) (keeps_within ?_) fun _ => ?_
      · unfold stageReview
        split_ifs
        · exact keeps_refuse_bind fun s h => h.unstaged.left
        · exact keeps_save (fun s h => h.unstaged.left) fun s h => ⟨h.stage _, rfl⟩
      · refine keeps_bind (Q := fun _ => Written e texts pubs d snap p.candidate q accepted) ?_ fun _ => ?_
        · unfold lockRuntimeProjectAt
          split
          · exact keeps_save (fun s h => hC s ((h.written hadm).left hadm)) fun s h => h.runtimeLocks hadm hs hst _
          · exact keeps_pure fun s h => h.written hadm
        · refine keeps_load fun after hafter => ?_
          split_ifs
          · exact (keeps_lockCommitted_left hadm hs hst hA).weaken (fun s h => h ▸ hafter) (fun _ _ h => h) hC
          · exact (keeps_lockRefused_left hadm).weaken (fun s h => h ▸ hafter) (fun _ _ h => h) hC

theorem keeps_reviewProject_left (files : Files) (token : String)
    (htexts : ∀ snap, confirmedSnapshot e files d₀.lock token = .ok snap → ∀ t ∈ snap.texts, t ∈ texts)
    (hfound : ∀ snap prior old p, confirmedSnapshot e files d₀.lock token = .ok snap →
      snap.lock.bind (lockedSet e) = some prior → priorSnapshot e d₀.copies snap prior = .ok old →
      publicationFromSnapshot e old o.now = .ok p → Among pubs p) :
    Keeps (fun d => d = d₀) (reviewProject e o files token) (fun _ => Left e texts pubs d₀ True) (Left e texts pubs d₀ True) := by
  unfold reviewProject
  refine keeps_load fun d hd => ?_
  subst hd
  refine keeps_lift_bind (fun s h => by subst h; exact hd₀.unstaged.left) fun snap hsnap => ?_
  obtain ⟨hs, hlock, -⟩ := confirmedSnapshot_spec hsnap
  have hbegin := keeps_beginPublication_opened (o := o) hA hd₀ hs (htexts snap hsnap) hlock fun prior old p =>
    hfound snap prior old p hsnap
  refine keeps_bind (Q := Opened e texts pubs o d snap) ?_ fun p => keeps_pure fun s h => h.entered.unstaged.left
  exact keeps_within (hbegin.weaken (fun _ h => h) (fun _ _ h => h) fun _ h => h.left)

end

theorem Left.steady {twin : Prop} {d : Disk} (h : Left e texts pubs d₀ twin d) (hor : twin ∨ d.lock = d₀.lock)
    (hi : ∀ v ∈ d.items, Among pubs v) (hp : ∀ v, d.pending = some v → Among pubs v) : Steady e texts pubs d :=
  ⟨h.base, h.recoverable hp hor, hi, hp⟩

theorem Grown.steady {d : Disk} (h : Grown d₀ d) (hs : Steady e texts pubs d₀) (hi : ∀ v ∈ d.items, Among pubs v) :
    Steady e texts pubs d :=
  ⟨hs.base.congr h.copies h.replaced, h.recoverable hs.recoverable, hi, fun v hv => hs.pending v (h.pending ▸ hv)⟩

theorem step_steady (hA : Apart e texts pubs) (d : Disk) (a : Action) (h : Steady e texts pubs d)
    (hin : Within e texts pubs d a) (hun : Unparted e d a) : Steady e texts pubs (step e d a) := by
  obtain ⟨act, o, saves⟩ := a
  have hi := hin.items
  have hp := hin.pending
  cases act with
  | outside lock =>
    refine ⟨h.base.congr rfl rfl, ?_, hi, hp⟩
    rintro refs ⟨⟩
  | lock files ran token refs reconcile =>
    have hleft := keeps_lockConfirmed_left (o := o) hA h files ran token refs reconcile (fun snap => hin.texts snap)
      (fun snap prior old p => hin.found snap prior old p) saves d rfl
    unfold Unparted at hun
    simp only at hun
    unfold step at hi hp hun ⊢
    simp only at hi hp hun ⊢
    generalize lockConfirmed e o files ran token refs reconcile saves d = out at hi hp hun hleft ⊢
    obtain ⟨ending, left, store⟩ := out
    cases ending with
    | done answer => exact hleft.steady (Or.inl trivial) hi hp
    | stopped =>
      rcases hun with ⟨_, ⟨⟩⟩ | hlock | htwin
      · exact hleft.steady (Or.inr hlock) hi hp
      · exact hleft.steady (Or.inl htwin) hi hp
    | refused why =>
      rcases hun with ⟨_, ⟨⟩⟩ | hlock | htwin
      · exact hleft.steady (Or.inr hlock) hi hp
      · exact hleft.steady (Or.inl htwin) hi hp
  | review files token =>
    have hleft := (keeps_reviewProject_left (o := o) hA h files token (fun snap => hin.texts snap)
      fun snap prior old p => hin.found snap prior old p).store (n := saves) rfl
    exact hleft.steady (Or.inl trivial) hi hp
  | dialect id req outside =>
    exact ((keeps_publishCheckedDialect_grown id req outside).store (Grown.refl d)).steady h hi
  | receipt preparation revision variant version id =>
    exact ((keeps_retainPublicationReceipt_grown _ id).store (Grown.refl d)).steady h hi

/-! ## What a confirmation confirms -/

/-- A transaction's beginning writes the ledger and the copies only. -/
theorem keeps_beginPublication_only {P : Disk → Prop} {snap : ReviewSnapshot} (hs : WellRead e snap)
    (hhistory : ∀ d ledger, P d → P { d with history := some ledger })
    (hcopies : ∀ d copies, P d → P { d with copies }) : Keeps P (beginPublication e o snap) (fun _ => P) P := by
  unfold beginPublication recoverLock
  refine keeps_load fun d hd => ?_
  have hC : ∀ s, s = d → P s := fun s hs => hs ▸ hd
  refine keeps_lift_bind hC fun ledger _ => keeps_lift_bind hC fun candidate _ => ?_
  refine keeps_bind (Q := fun _ => P) ?_ fun _ => ?_
  · split
    · exact keeps_pure hC
    · refine keeps_load fun d' hd' => ?_
      subst hd'
      refine keeps_lift_bind hC fun _ _ => keeps_lift_bind hC fun saved _ => keeps_lift_bind hC fun _ _ => ?_
      split
      · exact keeps_pure hC
      · refine keeps_lift_bind hC fun _ _ => ?_
        refine keeps_bind (Q := fun _ => P) ?_ fun _ => keeps_pure fun _ h => h
        exact keeps_writePublicationLedger hC fun s h _ => hhistory s _ (hC s h)
  · have hP : ∀ s, P s → P s := fun _ h => h
    refine keeps_lift_bind hP fun _ _ => keeps_lift_bind hP fun _ _ => ?_
    refine keeps_bind (Q := fun _ => P) (keeps_storeCopies (fun d _ _ h _ => hcopies d _ h) hs _) fun _ => ?_
    exact keeps_lift_bind hP fun _ _ => keeps_pure hP

/-- The lock on disk pins the snapshot of the token. -/
def Confirmed (e : Tools) (files : Files) (found : Option Bytes) (token : String) (d : Disk) : Prop :=
  ∃ snap, readSnapshot e (projectFiles files found) = .ok snap ∧ reviewToken e snap = token ∧
    d.lock.bind (lockedSet e) = some snap.set

theorem confirmedSnapshot_read {files : Files} {lock : Option Bytes} {token : String} {snap : ReviewSnapshot}
    (h : confirmedSnapshot e files lock token = .ok snap) : readSnapshot e (projectFiles files lock) = .ok snap := by
  unfold confirmedSnapshot at h
  split at h
  · next s hread =>
    split_ifs at h
    cases h
    exact hread
  · cases h

theorem pendingProjectPublication_some {pending : Option ArtifactPublication} {snap : ReviewSnapshot} {p : ArtifactPublication}
    (h : pendingProjectPublication e pending snap = .ok (some p)) : snap.lock.bind (lockedSet e) = some snap.set := by
  unfold pendingProjectPublication at h
  split at h
  · cases h
  · next raw hraw =>
    split at h
    · cases h
    · next locked hlocked =>
      by_cases hequal : locked.equal snap.set = true
      · rw [hraw]
        exact hlocked.trans (congrArg some (of_decide_eq_true hequal))
      · rw [if_pos hequal] at h
        cases h

theorem keeps_lockConfirmed_pins (files : Files) (ran : RuntimeLock) (token : String) (refs : Table RetainedArtifactRef)
    (reconcile : Bool) (d : Disk) :
    Keeps (fun s => s = d) (lockConfirmed e o files ran token refs reconcile) (fun _ => Confirmed e files d.lock token)
      fun _ => True := by
  unfold lockConfirmed
  refine keeps_load fun d' hd => ?_
  subst hd
  have hC : ∀ {P : Disk → Prop} s, P s → True := fun _ _ => trivial
  refine keeps_lift_bind hC fun snap hsnap => ?_
  obtain ⟨hs, hlock, htoken⟩ := confirmedSnapshot_spec hsnap
  have hread := confirmedSnapshot_read hsnap
  split_ifs with hreconcile
  · unfold reconcileLock
    refine keeps_load fun s hs' => ?_
    subst hs'
    split
    · next p hpending =>
      have hset := pendingProjectPublication_some hpending
      rw [hlock] at hset
      refine keeps_bind (Q := fun _ t => t.lock = s.lock) ?_ fun _ => keeps_pure fun t ht => ⟨snap, hread, htoken, ht ▸ hset⟩
      refine keeps_within ((keeps_beginPublication_only (P := fun t => t.lock = s.lock) hs (fun _ _ h => h) fun _ _ h => h).weaken
        (fun t ht => ht ▸ rfl) (fun _ _ h => h) hC)
    · exact keeps_refuse hC
  · refine keeps_bind (Q := fun _ _ => True) keeps_ends fun p => ?_
    refine keeps_lift_bind hC fun _ _ => ?_
    refine keeps_bind (Q := fun _ _ => True) keeps_ends fun r => ?_
    refine keeps_bind (Q := fun _ _ => True) keeps_ends fun _ => ?_
    refine keeps_bind (Q := fun _ _ => True) keeps_ends fun _ => ?_
    refine keeps_load fun after _ => ?_
    split_ifs with hpins
    · -- the commit and the copies leave the lock as it was seen
      have hset := pinsSet_spec hpins.2
      unfold lockCommitted
      refine keeps_bind (Q := fun _ t => t.lock = after.lock) (keeps_within ?_) fun _ => ?_
      · exact keeps_writePublicationLedger hC fun t ht _ => ht ▸ rfl
      · refine keeps_bind (Q := fun _ t => t.lock = after.lock) ?_ fun r => ?_
        · exact (keeps_attempt (keeps_storeCopies (P := fun t => t.lock = after.lock) (fun _ _ _ h _ => h) hs _)
            fun _ _ h => h).weaken (fun _ h => h) (fun _ _ h => h) hC
        · split
          · exact keeps_pure fun t ht => ⟨snap, hread, htoken, ht ▸ hset⟩
          · exact keeps_pure fun t ht => ⟨snap, hread, htoken, ht ▸ hset⟩
    · exact (keeps_lockRefused (P := fun _ => True) fun _ _ => trivial).weaken hC (fun _ _ h => h.elim) hC

/-! ## Runs -/

/-- A project whose lock, if any, is not Desk's, with copies of the run's texts. -/
structure Untouched (texts : List Bytes) (d : Disk) : Prop where
  fresh : Fresh d
  accepted : d.accepted = none
  replaced : d.replaced = []
  copies : ∀ name data, d.copies.get? name = some data → data ∈ texts

theorem Untouched.steady {d : Disk} (h : Untouched texts d) : Steady e texts pubs d := by
  have hi : d.items = [] := by rw [Disk.items, Disk.ledger, h.fresh.1, Option.getD_none]
  refine ⟨⟨h.copies, ?_⟩, ?_, ?_, ?_⟩
  · rw [h.replaced]
    exact fun _ hr => absurd hr List.not_mem_nil
  · intro refs ha
    rw [h.accepted] at ha
    cases ha
  · rw [hi]
    exact fun _ hp => absurd hp List.not_mem_nil
  · rw [h.fresh.2]
    intro _ hp
    cases hp

def snapshotOf (e : Tools) (d : Disk) (a : Action) : Option ReviewSnapshot :=
  match a.act with
  | .lock files _ token _ _ => (confirmedSnapshot e files d.lock token).toOption
  | .review files token => (confirmedSnapshot e files d.lock token).toOption
  | _ => none

theorem snapshotOf_of_confirms {d : Disk} {a : Action} {snap : ReviewSnapshot} (h : Confirms e d a snap) :
    snapshotOf e d a = some snap := by
  unfold Confirms at h
  unfold snapshotOf
  cases hact : a.act <;> rw [hact] at h <;> first | exact h.elim | (simp only at h ⊢; rw [h]; rfl)

/-- The publication of the lock an action finds. -/
def foundBy (e : Tools) (d : Disk) (a : Action) (snap : ReviewSnapshot) : Option ArtifactPublication := do
  let prior ← snap.lock.bind (lockedSet e)
  let old ← (priorSnapshot e d.copies snap prior).toOption
  (publicationFromSnapshot e old a.outside.now).toOption

instance (pubs : List ArtifactPublication) (p : ArtifactPublication) : Decidable (Among pubs p) :=
  inferInstanceAs (Decidable (_ ∧ _))

/-- `Within`, decided. -/
def withinCheck (e : Tools) (texts : List Bytes) (pubs : List ArtifactPublication) (d : Disk) (a : Action) : Bool :=
  (match snapshotOf e d a with
    | none => true
    | some snap => snap.texts.all (texts.contains ·) && (foundBy e d a snap).all fun p => decide (Among pubs p)) &&
  (step e d a).items.all (fun v => decide (Among pubs v)) && (step e d a).pending.all fun v => decide (Among pubs v)

theorem within_of_check {d : Disk} {a : Action} (h : withinCheck e texts pubs d a = true) : Within e texts pubs d a := by
  unfold withinCheck at h
  rw [Bool.and_eq_true, Bool.and_eq_true] at h
  obtain ⟨⟨hsnap, hitems⟩, hpending⟩ := h
  have hof : ∀ snap, Confirms e d a snap → snap.texts.all (texts.contains ·) = true ∧
      (foundBy e d a snap).all (fun p => decide (Among pubs p)) = true := by
    intro snap h
    rw [snapshotOf_of_confirms h] at hsnap
    simpa only [Bool.and_eq_true] using hsnap
  refine ⟨?_, ?_, ?_, ?_⟩
  · intro snap h t ht
    simpa using List.all_eq_true.mp (hof snap h).1 t ht
  · intro snap prior old p h hprior hold hp
    have := (hof snap h).2
    unfold foundBy at this
    rw [hprior] at this
    simp only [hold, hp, Except.toOption, Option.bind_eq_bind, Option.bind_some, Option.all_some, decide_eq_true_eq] at this
    exact this
  · intro v hv
    simpa using List.all_eq_true.mp hitems v hv
  · intro v hv
    rw [hv] at hpending
    simpa using hpending

/-- A confirmation that succeeded, or left the lock, is unparted. -/
def unpartedCheck (e : Tools) (d : Disk) (a : Action) : Bool :=
  match a.act with
  | .lock files ran token refs reconcile =>
    match (lockConfirmed e a.outside files ran token refs reconcile a.saves d).ending with
    | .done _ => true
    | _ => decide ((step e d a).lock = d.lock)
  | _ => true

theorem unparted_of_check {d : Disk} {a : Action} (h : unpartedCheck e d a = true) : Unparted e d a := by
  unfold unpartedCheck at h
  unfold Unparted
  cases hact : a.act with
  | lock files ran token refs reconcile =>
    rw [hact] at h
    simp only at h ⊢
    split at h
    · next answer hdone => exact Or.inl ⟨answer, hdone⟩
    · exact Or.inr (Or.inl (of_decide_eq_true h))
  | _ => trivial

/-- The sample's tools, with a major release and a configuration without packs. -/
def lossTools : Tools :=
  { sampleTools with
    lockDocument := fun raw =>
      if raw = [13] then some { config := "sha256:" ++ sampleDigest [2] } else sampleTools.lockDocument raw
    runtime := { sampleRuntime with choice := fun base _ => if base = "3.0.0" then some "5.0.0" else none } }

/-- The review of version 5 over version 3. -/
def lossReview : ArtifactReview where
  target := "urn:judgmentpack:project-review:pack:a"
  basePublication := sampleDigest [11]
  storageRevision := markOf 0
  candidate := { sha256 := sampleDigest [5], bytes := 1 }
  proposedVersion := "5.0.0"
  impact := { classification := "major", rationale := "next" }
  dependencies := [{ sha256 := markOf 0, bytes := 0 }, { sha256 := sampleDigest [1], bytes := 1 },
    { sha256 := sampleDigest [3], bytes := 1 }]

def lossRef : RetainedArtifactRef := { sha256 := markOf 7, bytes := 9 }

def lossAct (saves : Nat) (act : Act) : Action :=
  { act, outside := { sampleOutside with retained := fun _ => some lossReview }, saves }

def lossFiles : Files := fun name => if name = "jpack.json" then some [2] else none

/-- A project with a copy of version 3. -/
def lossDisk : Disk := { copies := Table.empty.set (sampleDigest [3]) [3] }

/-- The lock of version 5 is imported, that of version 3 comes back, and version 5 is locked anew, with a review; then the
process stops before the commit, and a configuration without packs is locked. -/
def lossRun : List Action :=
  [lossAct 0 (.outside (some [12])), lossAct 9 (.review (sampleFiles 5) ""), lossAct 0 (.outside (some [11])),
   lossAct 3 (.lock (sampleFiles 5) { wrote := some [12], problem := none } "" (Table.empty.set "pack:a" lossRef) false),
   lossAct 9 (.lock lossFiles { wrote := some [13], problem := none } "" Table.empty false)]

/-- Version 3 is locked with a review, and then a configuration without packs. -/
def keptRun : List Action :=
  [sampleAct 9 (.lock (sampleFiles 3) { wrote := some [11], problem := none } "" (Table.empty.set "pack:a" lossRef) false),
   lossAct 9 (.lock lossFiles { wrote := some [13], problem := none } "" Table.empty false)]

def lossTexts : List Bytes := [[1], [2], [3], [5]]

def lossPublications : List ArtifactPublication :=
  [(sampleItem 5 "5.0.0" true []).bare, (sampleItem 3 "3.0.0" true []).bare, (sampleItem 5 "5.0.0" false [lossRef]).bare,
   (sampleItem 3 "3.0.0" false [lossRef]).bare,
   { at_ := "", config := some { sha256 := sampleDigest [2], bytes := 1 }, documents := [] }]

theorem lossTools_apart : Apart lossTools lossTexts lossPublications :=
  ⟨by decide +kernel, by decide +kernel⟩

theorem lossDisk_untouched : Untouched lossTexts lossDisk := by
  refine ⟨⟨rfl, rfl⟩, rfl, rfl, fun name data h => ?_⟩
  by_cases hn : name = sampleDigest [3]
  · rw [hn, lossDisk, Table.get?_set_self] at h
    cases h
    decide
  · rw [lossDisk, Table.get?_set_ne _ _ hn, Table.get?_empty] at h
    cases h

theorem keptRun_checked : Along (step lossTools)
    (fun d a => withinCheck lossTools lossTexts lossPublications d a = true ∧ unpartedCheck lossTools d a = true) lossDisk keptRun := by
  decide +kernel

/-- The reviews a lock written over was accepted with are no item's. -/
def lostReview (r : Replaced) : Bool :=
  match r.accepted with
  | some (ref :: _) => r.items.all fun q => !q.reviews.contains ref
  | _ => false

theorem lossRun_checked : Along (step lossTools) (fun d a => withinCheck lossTools lossTexts lossPublications d a = true)
    lossDisk lossRun ∧ ((run (step lossTools) lossDisk lossRun).replaced.any fun r =>
      (lockedSet lossTools r.lock).isSome && lostReview r) = true := by
  decide +kernel

end Publication

end Desk
