import Desk.Publication.CallSound

/-!
# Dialects are published once

A request is completed by one item, which every later call with its identity
answers, over all runs of calls and other transactions; and an item's review is
against the publication it follows.
-/

namespace Desk

namespace Publication

open Saves

variable {e : Tools} {o : Outside} {d₀ : Disk}

/-! ## The other transactions -/

/-- Only items of a project entered the ledger. -/
def Beside (d₀ d : Disk) : Prop :=
  d.ledger.receipts = d₀.ledger.receipts ∧ ∃ more, d.items = d₀.items ++ more ∧ ∀ p ∈ more, p.dialect = none

theorem Beside.refl (d : Disk) : Beside d d := ⟨rfl, [], by rw [List.append_nil], nofun⟩

theorem Beside.congr {d d' : Disk} (h : Beside d₀ d) (hh : d'.history = d.history) : Beside d₀ d' := by
  have hl : d'.ledger = d.ledger := by rw [Disk.ledger, Disk.ledger, hh]
  unfold Beside Disk.items
  rw [hl]
  exact h

theorem Beside.append {d : Disk} (h : Beside d₀ d) {p : ArtifactPublication} (hp : p.dialect = none) :
    Beside d₀ { d with history := some { d.ledger with items := d.ledger.items ++ [p] } } := by
  obtain ⟨hreceipts, more, hitems, hmore⟩ := h
  refine ⟨hreceipts, more ++ [p], ?_, fun q hq => ?_⟩
  · show d.items ++ [p] = _
    rw [hitems, List.append_assoc]
  · rcases List.mem_append.mp hq with hq | hq
    · exact hmore q hq
    · rw [List.mem_singleton.mp hq]
      exact hp

theorem savedPublication_dialect {pending : Option ArtifactPublication} {old : ReviewSnapshot} {saved : ArtifactPublication}
    (h : savedPublication e o pending old = .ok saved) : saved.dialect = none := by
  obtain ⟨p, hp, _, ⟨rfl, _⟩ | ⟨hpending, hsame⟩⟩ := savedPublication_spec h
  · obtain ⟨documents, _, rfl⟩ := publicationFromSnapshot_eq_ok.mp hp
    rfl
  · unfold savedPublication at h
    obtain ⟨p', hp', h⟩ := bind_eq_ok.mp h
    obtain ⟨staged, hstaged, h⟩ := bind_eq_ok.mp h
    rw [hpending] at hstaged
    unfold readPendingPublication at hstaged
    dsimp only at hstaged
    split_ifs at hstaged with _ hform _
    simp only [not_or, Bool.not_eq_true, Option.isSome_eq_false_iff, Option.isNone_iff_eq_none] at hform
    exact hform.2.1

/-- A transaction whose candidate is a project's. -/
structure Project (d₀ : Disk) (p : Transaction) (d : Disk) : Prop where
  beside : Beside d₀ d
  ledger : p.ledger = d.ledger
  candidate : p.candidate.dialect = none ∨ p.candidate ∈ d.items

theorem Project.congr {p : Transaction} {d d' : Disk} (h : Project d₀ p d) (hh : d'.history = d.history) : Project d₀ p d' := by
  have hl : d'.ledger = d.ledger := by rw [Disk.ledger, Disk.ledger, hh]
  refine ⟨h.beside.congr hh, by rw [hl]; exact h.ledger, ?_⟩
  unfold Disk.items
  rw [hl]
  exact h.candidate

theorem keeps_beginPublication_beside {snap : ReviewSnapshot} (hs : WellRead e snap) :
    Keeps (Beside d₀) (beginPublication e o snap) (fun p d => p.candidate.dialect = none ∧ Project d₀ p d) (Beside d₀) := by
  unfold beginPublication
  refine keeps_load fun d hd => ?_
  have hC : ∀ s, s = d → Beside d₀ s := fun s hs => hs ▸ hd
  refine keeps_lift_bind hC fun ledger hledger => ?_
  have hl := readPublicationLedger_ledger hledger
  subst hl
  refine keeps_lift_bind hC fun candidate hcandidate => ?_
  have hproject : candidate.dialect = none := by
    obtain ⟨documents, _, rfl⟩ := publicationFromSnapshot_eq_ok.mp hcandidate
    rfl
  refine keeps_bind (Q := fun r s => Beside d₀ s ∧ r.1 = s.ledger) ?_ fun r => ?_
  · unfold recoverLock
    split
    · exact keeps_pure fun s hs => by subst hs; exact ⟨hd, rfl⟩
    · refine keeps_load fun d' hd' => ?_
      subst hd'
      refine keeps_lift_bind hC fun _ _ => keeps_lift_bind hC fun saved hsaved => keeps_lift_bind hC fun _ _ => ?_
      split
      · exact keeps_pure fun s hs => by subst hs; exact ⟨hd, rfl⟩
      · refine keeps_lift_bind hC fun _ _ => ?_
        refine keeps_bind (Q := fun _ s => Beside d₀ s ∧ { d'.ledger with items := d'.ledger.items ++ [saved] } = s.ledger) ?_
          fun _ => keeps_pure fun _ h => h
        refine keeps_writePublicationLedger hC fun s hs' _ => ?_
        subst hs'
        exact ⟨hd.append (savedPublication_dialect hsaved), rfl⟩
  · have hP : ∀ s, Beside d₀ s ∧ r.1 = s.ledger → Beside d₀ s := fun _ h => h.1
    refine keeps_lift_bind hP fun _ _ => keeps_lift_bind hP fun _ _ => ?_
    refine keeps_bind (Q := fun _ s => Beside d₀ s ∧ r.1 = s.ledger) ?_ fun _ => ?_
    · refine (keeps_storeCopies (P := fun s => Beside d₀ s ∧ r.1 = s.ledger) (fun d _ _ h _ => ?_) hs _).weaken
        (fun _ h => h) (fun _ _ h => h) hP
      exact ⟨h.1.congr rfl, h.2⟩
    · exact keeps_lift_bind hP fun _ _ => keeps_pure fun s h => ⟨hproject, h.1, h.2, Or.inl hproject⟩

theorem keeps_commit_beside {p : Transaction} : Keeps (Project d₀ p) (p.commit e) (fun _ => Beside d₀) (Beside d₀) := by
  unfold Transaction.commit
  refine keeps_writePublicationLedger (fun d h => h.beside) fun d h _ => ?_
  unfold withCandidate
  split_ifs with hany
  · rw [h.ledger]
    exact ⟨h.beside.1, h.beside.2⟩
  · rw [h.ledger]
    rcases h.candidate with hnone | hmem
    · exact h.beside.append hnone
    · refine absurd (List.any_eq_true (p := fun q : ArtifactPublication => q.id == p.candidate.id) |>.mpr ⟨p.candidate, ?_, beq_self_eq_true _⟩) hany
      rw [h.ledger]
      exact hmem

theorem keeps_lockConfirmed_beside (files : Files) (ran : RuntimeLock) (token : String) (refs : Table RetainedArtifactRef)
    (reconcile : Bool) :
    Keeps (Beside d₀) (lockConfirmed e o files ran token refs reconcile) (fun _ => Beside d₀) (Beside d₀) := by
  unfold lockConfirmed
  refine keeps_load fun d hd => ?_
  have hC : ∀ s, s = d → Beside d₀ s := fun s hs => hs ▸ hd
  refine keeps_lift_bind hC fun snap hsnap => ?_
  obtain ⟨hs, -, -⟩ := confirmedSnapshot_spec hsnap
  have hbegin := (@keeps_beginPublication_beside e o d₀ _ hs).weaken hC (fun _ _ h => h) fun _ h => h
  split_ifs
  · unfold reconcileLock
    refine keeps_load fun s hs' => ?_
    subst hs'
    split
    · refine keeps_bind (keeps_within hbegin) fun _ => ?_
      exact keeps_pure fun _ h => h.2.beside
    · exact keeps_refuse hC
  refine keeps_bind (keeps_within hbegin) fun p => ?_
  have hP : ∀ s, p.candidate.dialect = none ∧ Project d₀ p s → Beside d₀ s := fun _ h => h.2.beside
  refine keeps_lift_bind hP fun _ _ => ?_
  refine keeps_bind (Q := fun r => Project d₀ r.1) ?_ fun r => ?_
  · refine keeps_within ?_
    unfold admitProjectArtifactReviews
    refine keeps_load fun s ⟨hnone, hbegun⟩ => ?_
    refine keeps_lift_bind (fun t ht => ht ▸ hbegun.beside) fun accepted _ => keeps_pure fun t ht => ?_
    subst ht
    refine ⟨hbegun.beside, hbegun.ledger, ?_⟩
    have hi : p.ledger.items = t.items := congrArg PublicationLedger.items hbegun.ledger
    rcases acceptedCandidate_cases (e := e) p.ledger.items p.candidate accepted with heq | ⟨_, hmem⟩
    · exact Or.inl (by rw [heq]; exact hnone)
    · exact Or.inr (hi ▸ hmem)
  · obtain ⟨p, accepted⟩ := r
    have hP : ∀ s, Project d₀ p s → Beside d₀ s := fun _ h => h.beside
    refine keeps_bind (Q := fun _ => Project d₀ p) ?_ fun _ => ?_
    · refine keeps_within ?_
      unfold stageReview
      split_ifs
      · exact keeps_refuse_bind hP
      · exact keeps_save hP fun d' h => h.congr rfl
    refine keeps_bind (Q := fun _ => Project d₀ p) ?_ fun _ => ?_
    · unfold lockRuntimeProjectAt
      split
      · exact keeps_save hP fun d' h => h.congr rfl
      · exact keeps_pure fun _ h => h
    · refine keeps_load fun after hafter => ?_
      split_ifs
      · unfold lockCommitted
        refine keeps_bind (Q := fun _ => Beside d₀) (keeps_within (keeps_commit_beside.weaken (fun t ht => ht ▸ hafter)
          (fun _ _ h => h) fun _ h => h)) fun _ => ?_
        refine keeps_bind (Q := fun _ => Beside d₀) ?_ fun r => ?_
        · exact keeps_attempt (keeps_storeCopies (fun d _ _ h _ => h.congr rfl) hs _) fun _ _ h => h
        · split
          · exact keeps_pure fun _ h => h
          · exact keeps_pure fun _ h => h
      · refine (keeps_lockRefused (P := Beside d₀) fun d' h => h.congr rfl).weaken (fun t ht => ht ▸ hafter.beside) ?_ fun _ h => h
        exact fun _ _ h => h.elim

theorem keeps_reviewProject_beside (files : Files) (token : String) :
    Keeps (Beside d₀) (reviewProject e o files token) (fun _ => Beside d₀) (Beside d₀) := by
  unfold reviewProject
  refine keeps_load fun d hd => ?_
  have hC : ∀ s, s = d → Beside d₀ s := fun s hs => hs ▸ hd
  refine keeps_lift_bind hC fun snap hsnap => ?_
  obtain ⟨hs, -, -⟩ := confirmedSnapshot_spec hsnap
  refine keeps_bind (Q := fun _ => Beside d₀) ?_ fun _ => keeps_pure fun _ h => h
  exact keeps_within ((keeps_beginPublication_beside hs).weaken hC (fun _ _ h => h.2.beside) fun _ h => h)

theorem Beside.single {asked : RequestID → Prop} {d : Disk} (h : Beside d₀ d) (hs : Single e asked d₀.ledger) :
    Single e asked d.ledger ∧ d₀.items <+: d.items := by
  obtain ⟨hreceipts, more, hitems, hmore⟩ := h
  have none_of : ∀ p ∈ more, ∀ id variant, ofDialect id variant p = false := by
    intro p hp id variant
    rw [ofDialect, hmore p hp]
  have not_requested : ∀ p ∈ more, ∀ request, ¬RequestedAs request p := by
    rintro p hp request ⟨c, hc, _⟩
    rw [hmore p hp] at hc
    cases hc
  have hi : d.ledger.items = d₀.ledger.items ++ more := hitems
  refine ⟨⟨?_, ?_, fun p hp request hr => ?_, fun request i hlookup => ?_⟩, hitems ▸ List.prefix_append _ _⟩
  · rw [hi]
    refine List.pairwise_append.mpr ⟨hs.rising, List.pairwise_of_forall_mem_list ?_, ?_⟩
    · intro p hp q hq id variant hd
      rw [none_of p hp] at hd
      cases hd
    · intro p hp q hq id variant _ hd
      rw [none_of q hq] at hd
      cases hd
  · rw [hi]
    refine List.pairwise_append.mpr ⟨hs.single, List.pairwise_of_forall_mem_list ?_, ?_⟩
    · intro p hp q hq request hr
      exact absurd hr (not_requested p hp request)
    · intro p hp q hq request _
      exact not_requested q hq request
  · rw [hi] at hp
    rcases List.mem_append.mp hp with hp | hp
    · exact hs.own p hp request hr
    · exact absurd hr (not_requested p hp request)
  · rw [hreceipts] at hlookup
    obtain ⟨t, ht, hrequest, q, hq, hqid, hrel⟩ := hs.receipts request i hlookup
    exact ⟨t, ht, hrequest, q, hi ▸ List.mem_append_left _ hq, hqid, hrel⟩

/-! ## Runs -/

/-- A project, and the ledgers it has had. -/
structure Watched where
  disk : Disk
  past : List (Option PublicationLedger)

def Watched.start (d : Disk) : Watched := ⟨d, [d.history]⟩

def Watched.step (e : Tools) (w : Watched) (a : Action) : Watched :=
  let disk := Publication.step e w.disk a
  ⟨disk, disk.history :: w.past⟩

/-- A call first read a ledger the project had, now or before. A receipt is retained by a call only. -/
def Genuine (w : Watched) (a : Action) : Prop :=
  match a.act with
  | .dialect _ _ d => d.seen ∈ w.past
  | .receipt _ _ _ _ _ => False
  | _ => True

instance (w : Watched) (a : Action) : Decidable (Genuine w a) := by
  unfold Genuine
  split <;> infer_instance

def Act.identity : Act → Option RequestID
  | .dialect id req _ => some (req.identity id)
  | _ => none

/-- The requests of the calls of a run. -/
def requests (as : List Action) : List RequestID := as.filterMap (·.act.identity)

/-- What every step keeps. -/
structure Told (e : Tools) (asked : RequestID → Prop) (w : Watched) : Prop where
  kept : Kept e [] w.disk
  now : w.disk.history ∈ w.past
  past : ∀ h ∈ w.past, Single e asked (h.getD {}) ∧ (h.getD {}).items <+: w.disk.items ∧
    (Separate e (h.getD {}).items → readPublicationLedger e h = .ok (h.getD {}))

section
variable {asked : RequestID → Prop} {w : Watched}

theorem Told.single (h : Told e asked w) : Single e asked w.disk.ledger := (h.past _ h.now).1

theorem readable_of_kept {d : Disk} (h : Kept e [] d) (hsep : Separate e d.items) :
    readPublicationLedger e d.history = .ok d.ledger := by
  unfold Disk.ledger
  cases hh : d.history with
  | none => rfl
  | some ledger => exact (readPublicationLedger_eq_ok e).mpr ⟨rfl, (h.2 hsep).ledger ledger hh⟩

/-- What a step does to the ledger, besides reading it. -/
theorem step_single (h : Told e asked w) (law : e.runtime.Lawful) (hdigest : ∀ p, e.publicationDigest p ≠ "") {a : Action}
    (hgenuine : Genuine w a) (hasked : ∀ t, a.act.identity = some t → asked t) :
    Single e asked (step e w.disk a).ledger ∧ w.disk.items <+: (step e w.disk a).items := by
  unfold Genuine at hgenuine
  unfold step
  cases hact : a.act with
  | outside lock => exact ⟨h.single, List.prefix_rfl⟩
  | lock files ran token refs reconcile =>
    exact ((keeps_lockConfirmed_beside files ran token refs reconcile).store (Beside.refl w.disk)).single h.single
  | review files token => exact ((keeps_reviewProject_beside files token).store (Beside.refl w.disk)).single h.single
  | dialect id req d =>
    rw [hact] at hgenuine hasked
    exact (call_effect e a.outside id req d a.saves w.disk).single h.single law hdigest (h.past _ hgenuine).2.1 (hasked _ rfl)
  | receipt preparation revision variant version id =>
    rw [hact] at hgenuine
    exact hgenuine.elim

/-- The step lemma. -/
theorem Told.step (h : Told e asked w) (law : e.runtime.Lawful) (hdigest : ∀ p, e.publicationDigest p ≠ "") {a : Action}
    (hgenuine : Genuine w a) (hasked : ∀ t, a.act.identity = some t → asked t) : Told e asked (w.step e a) := by
  obtain ⟨hsingle, hgrows⟩ := step_single h law hdigest hgenuine hasked
  have hkept := step_kept w.disk a h.kept
  refine ⟨hkept, List.mem_cons_self, fun hist hmem => ?_⟩
  rcases List.mem_cons.mp hmem with rfl | hmem
  · exact ⟨hsingle, List.prefix_rfl, readable_of_kept hkept⟩
  · obtain ⟨hs, hprefix, hread⟩ := h.past hist hmem
    exact ⟨hs, hprefix.trans hgrows, hread⟩

theorem Told.run (h : Told e asked w) (law : e.runtime.Lawful) (hdigest : ∀ p, e.publicationDigest p ≠ "") {as : List Action}
    (hgenuine : Along (Watched.step e) Genuine w as) (hasked : ∀ t ∈ requests as, asked t) :
    Told e asked (Desk.run (Watched.step e) w as) ∧ w.disk.items <+: (Desk.run (Watched.step e) w as).disk.items := by
  induction as generalizing w with
  | nil => exact ⟨h, List.prefix_rfl⟩
  | cons a rest ih =>
    have ha : ∀ t, a.act.identity = some t → asked t := fun t ht =>
      hasked t (List.mem_filterMap.mpr ⟨a, List.mem_cons_self, ht⟩)
    have hrest : ∀ t ∈ requests rest, asked t := by
      intro t ht
      obtain ⟨b, hb, hbt⟩ := List.mem_filterMap.mp ht
      exact hasked t (List.mem_filterMap.mpr ⟨b, List.mem_cons_of_mem _ hb, hbt⟩)
    obtain ⟨hrun, hgrows⟩ := ih (h.step law hdigest hgenuine.1 ha) hgenuine.2 hrest
    exact ⟨hrun, (step_single h law hdigest hgenuine.1 ha).2.trans hgrows⟩

theorem Fresh.told {d : Disk} (h : Fresh d) : Told e asked (Watched.start d) := by
  have hnone : d.history = none := h.1
  refine ⟨h.kept, List.mem_singleton.mpr rfl, fun hist hmem => ?_⟩
  have hist_none : hist = none := (List.mem_singleton.mp hmem).trans hnone
  subst hist_none
  refine ⟨⟨List.Pairwise.nil, List.Pairwise.nil, nofun, fun request i hlookup => ?_⟩, List.nil_prefix, fun _ => rfl⟩
  rw [show ((none : Option PublicationLedger).getD {}).receipts = ∅ from rfl, Finmap.lookup_empty] at hlookup
  cases hlookup

theorem Single.count {ledger : PublicationLedger} (h : Single e asked ledger) (request : String) :
    (ledger.items.countP fun p => RequestedAs request p) ≤ 1 := by
  have hcount : ∀ items : List ArtifactPublication,
      (items.Pairwise fun p q => ∀ request, RequestedAs request p → ¬RequestedAs request q) →
      (items.countP fun p => RequestedAs request p) ≤ 1 := by
    intro items hitems
    induction items with
    | nil => exact Nat.zero_le 1
    | cons p rest ih =>
      obtain ⟨hp, hrest⟩ := List.pairwise_cons.mp hitems
      rw [List.countP_cons]
      by_cases hr : RequestedAs request p
      · have hzero : (rest.countP fun q => RequestedAs request q) = 0 := by
          rw [List.countP_eq_zero]
          intro q hq
          simpa using hp q hq request hr
        simp [hzero, hr]
      · simpa [hr] using ih hrest
  exact hcount ledger.items h.single

variable {id : String} {req : DialectPublicationRequest} {d : DialectOutside} {saves : Nat}

/-- What a call answers as saved is the item of its request, where there is one. -/
theorem Told.answers (h : Told e asked w) (law : e.runtime.Lawful) (hdigest : ∀ p, e.publicationDigest p ≠ "")
    (hinj : ∀ t u, asked t → asked u → e.requestID t = e.requestID u → t = u) (hseen : d.seen ∈ w.past)
    (hasked : asked (req.identity id)) {ans : DialectPublicationAnswer} {left : Nat} {after : Disk}
    (hcall : publishCheckedDialect e o id req d saves w.disk = ⟨.done ans, left, after⟩) (hsaved : ans.saved = true) :
    (∃ q ∈ after.items, q.id = ans.publication.id) ∧
      ∀ p ∈ after.items, RequestedAs (e.requestID (req.identity id)) p → ans.publication = p := by
  obtain ⟨heffect, hanswers⟩ := (keeps_call d).done (rfl : w.disk = w.disk) hcall
  obtain ⟨hseenSingle, hseenPrefix, _⟩ := h.past _ hseen
  obtain ⟨hafter, hgrows⟩ := heffect.single h.single law hdigest hseenPrefix hasked
  have hold : ∀ r ∈ (d.seen.getD {}).items, r ∈ after.items := fun r hr => hgrows.subset (hseenPrefix.subset hr)
  cases hanswers hsaved with
  | seen hsound hdone =>
    refine ⟨⟨_, hold _ (mem_of_completedBy hdone), rfl⟩, fun p hp hr => ?_⟩
    exact hseenSingle.completed hsound hafter law hinj hold hp hr hdone
  | found hsound hdone =>
    refine ⟨⟨_, hgrows.subset (mem_of_completedBy hdone), rfl⟩, fun p hp hr => ?_⟩
    exact h.single.completed hsound hafter law hinj (fun r hr => hgrows.subset hr) hp hr hdone
  | prior hmem hreleases =>
    refine ⟨⟨_, hold _ hmem, rfl⟩, fun p hp hr => ?_⟩
    obtain ⟨t, ht, hrequest, hrel⟩ := hafter.own p hp _ hr
    have hsame := hinj _ _ hasked ht hrequest
    subst hsame
    exact hafter.release law (hold _ hmem) hp hreleases hrel
  | entered hopen hin hnew =>
    refine ⟨hin, fun p hp hr => ?_⟩
    rcases hnew p hp with hbefore | rfl
    · exact absurd hr (not_requestedAs_of_open hopen p hbefore)
    · rfl

/-- A call that read the item of its request answers it. -/
theorem Told.retried (h : Told e asked w) (law : e.runtime.Lawful)
    (hinj : ∀ t u, asked t → asked u → e.requestID t = e.requestID u → t = u) (hseen : d.seen ∈ w.past)
    (hsep : Separate e w.disk.items) {p : ArtifactPublication} (hp : p ∈ (d.seen.getD {}).items)
    (hr : RequestedAs (e.requestID (req.identity id)) p) :
    publishCheckedDialect e o id req d saves w.disk = ⟨.done { publication := p, saved := true }, saves, w.disk⟩ := by
  obtain ⟨hsingle, hprefix, hread⟩ := h.past _ hseen
  have hread : readPublicationLedger e d.seen = .ok (d.seen.getD {}) := by
    refine hread ?_
    obtain ⟨more, hmore⟩ := hprefix
    rw [← hmore] at hsep
    exact hsep.of_append
  obtain ⟨q, hq⟩ := completedBy_isSome hp hr
  have hsame := hsingle.completed (sound_of_read hread).2 hsingle law hinj (fun _ hr => hr) hp hr hq
  subst hsame
  have hq : completedBy (d.seen.getD {}) (e.requestDigest id req.revision req.variant req.version) = some q := hq
  unfold publishCheckedDialect
  rw [hread, lift_ok_bind, hq]
  rfl

/-- What a call entered was reviewed against the latest publication there was. -/
theorem reviewed_base {a : Action} (hact : a.act = .dialect id req d) {p : ArtifactPublication}
    (hp : p ∈ (w.step e a).disk.items) (hnew : p ∉ w.disk.items) :
    RequestedAs (e.requestID (req.identity id)) p ∧
      req.basePublication = some (latestDialectPublication w.disk.ledger id req.variant) ∧
      ∃ ref review, p.review = some ref ∧ artifactReview a.outside ref = .ok review ∧
        review.basePublication = latestDialectPublication w.disk.ledger id req.variant := by
  have heffect := call_effect e a.outside id req d a.saves w.disk
  have hstep : (w.step e a).disk = (publishCheckedDialect e a.outside id req d a.saves w.disk).store := by
    show Publication.step e w.disk a = _
    unfold Publication.step
    rw [hact]
  rw [hstep] at hp
  cases heffect with
  | same h =>
    rw [Disk.items, h] at hp
    exact absurd hp hnew
  | receipt prior _ _ h =>
    rw [Disk.items, h] at hp
    exact absurd hp hnew
  | entered q hq _ h =>
    rw [Disk.items, h] at hp
    rcases List.mem_append.mp hp with hp | hp
    · exact absurd hp hnew
    · cases List.mem_singleton.mp hp
      exact ⟨hq.request, hq.asked, hq.review⟩

end

/-- The Runtime of the sample, where 5.0.0 is the next major version of 3.0.0. -/
def releaseRuntime : Runtime where
  compare := sampleRuntime.compare
  choice base classification := if base = "3.0.0" ∧ classification = "major" then some "5.0.0" else none
  version := sampleRuntime.version

theorem compare_greater {a b : String} :
    releaseRuntime.compare a b = some .greater ↔ ∃ m n, rankOf a = some m ∧ rankOf b = some n ∧ m < n := by
  unfold releaseRuntime sampleRuntime
  dsimp only
  cases ha : rankOf a with
  | none => simp
  | some m =>
    cases hb : rankOf b with
    | none => simp
    | some n =>
      by_cases hlt : m < n
      · simp [hlt]
      · by_cases hgt : n < m <;> simp [hlt, hgt]

theorem releaseRuntime_lawful : releaseRuntime.Lawful where
  later base classification version h := by
    have h : (if base = "3.0.0" ∧ classification = "major" then some "5.0.0" else none) = some version := h
    split_ifs at h with hb
    cases h
    rw [hb.1]
    decide
  trans a b c hab hbc := by
    obtain ⟨m, n, hm, hn, hlt⟩ := compare_greater.mp hab
    obtain ⟨n', k, hn', hk, hlt'⟩ := compare_greater.mp hbc
    rw [hn] at hn'
    cases hn'
    exact compare_greater.mpr ⟨m, k, hm, hk, hlt.trans hlt'⟩
  irrefl a h := by
    obtain ⟨m, n, hm, hn, hlt⟩ := compare_greater.mp h
    rw [hm] at hn
    cases hn
    exact Nat.lt_irrefl _ hlt

def releaseTools : Tools := { sampleTools with
  publicationDigest := fun p => "p" ++ p.version
  requestDigest := fun _ _ _ version => markOf (if version = "3.0.0" then 3 else 5)
  runtime := releaseRuntime
  requestForm := fun _ _ _ _ => markOf_form _ }

def releasePreparation : String := "prep_00000000000000000000000000000000"

def releaseImpact (base : String) : ArtifactImpact :=
  { classification := if base = "" then "initial" else "major", rationale := "reviewed" }

def releaseDocument (version : String) : Bytes := if version = "3.0.0" then [3] else [5]

/-- The review of a version, against a base. -/
def releaseReview (base version : String) : ArtifactReview where
  target := dialectArtifactID releasePreparation "asserted"
  basePublication := base
  storageRevision := sampleDigest [9]
  candidate := releaseTools.reference (releaseDocument version)
  proposedVersion := version
  impact := releaseImpact base
  dependencies := [releaseTools.reference [8], releaseTools.reference [7]]

def releaseRequest (base version : String) : DialectPublicationRequest where
  publish := true
  revision := sampleDigest [9]
  variant := "asserted"
  version := version
  checkDigest := releaseTools.sha256Digest (releaseDocument version)
  reviewed := true
  basePublication := some base
  impact := releaseImpact base
  review := some { sha256 := markOf 7, bytes := 9 }

/-- A call that read the ledger when it had `seen`. -/
def releaseAct (seen : Option PublicationLedger) (base version : String) : Action where
  act := .dialect releasePreparation (releaseRequest base version)
    { seen
      saved := some { raw := [9], recipe := [8], pack := [7] }
      checked := some
        { artifactID := dialectArtifactID releasePreparation "asserted", artifactVersion := version
          document := releaseDocument version } }
  outside := { sampleOutside with retained := fun _ => some (releaseReview base version) }
  saves := 1

/-- Version 3 is published by one of two calls that began together; then version 5, against it. -/
def releaseRun : List Action :=
  let published := (run (step releaseTools) {} [releaseAct none "" "3.0.0"]).history
  [releaseAct none "" "3.0.0", releaseAct none "" "3.0.0", releaseAct published "p3.0.0" "5.0.0"]

theorem releaseRun_checked : Along (Watched.step releaseTools) Genuine (Watched.start {}) releaseRun ∧
    Separate releaseTools (run (Watched.step releaseTools) (Watched.start {}) releaseRun).disk.items ∧
    (run (Watched.step releaseTools) (Watched.start {}) releaseRun).disk.items.map (·.id) = ["p3.0.0", "p5.0.0"] := by
  unfold Separate
  decide +kernel

theorem releaseRun_requests : ∀ t ∈ requests releaseRun, ∀ u ∈ requests releaseRun,
    releaseTools.requestID t = releaseTools.requestID u → t = u := by decide +kernel

end Publication

end Desk
