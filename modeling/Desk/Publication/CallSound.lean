import Desk.Publication.HistorySound

/-!
# A call that publishes a dialect

All that a call can do to the ledger and answer as saved, whenever it first read
the ledger, and that it leaves one item a request and a release.
-/

namespace Desk

namespace Publication

open Saves

variable {e : Tools} {o : Outside}

/-! ## Requests and releases -/

/-- A preparation, a revision of it, a variant and a version. -/
structure RequestID where
  preparation : String
  revision : String
  variant : String
  version : String
  deriving DecidableEq

def DialectPublicationRequest.identity (id : String) (req : DialectPublicationRequest) : RequestID :=
  ⟨id, req.revision, req.variant, req.version⟩

/-- `dialectPublicationRequestID` -/
def Tools.requestID (e : Tools) (t : RequestID) : String := e.requestDigest t.preparation t.revision t.variant t.version

/-- The version of a dialect's one document. -/
def ArtifactPublication.version (p : ArtifactPublication) : String := (p.documents.head?.map (·.version)).getD ""

/-- An item is a release of the preparation and variant, at the version. -/
def Releases (t : RequestID) (p : ArtifactPublication) : Prop :=
  ofDialect t.preparation t.variant p = true ∧ p.version = t.version

def RequestedAs (request : String) (p : ArtifactPublication) : Prop := ∃ c, p.dialect = some c ∧ c.request = request

instance (request : String) (p : ArtifactPublication) : Decidable (RequestedAs request p) :=
  decidable_of_iff (p.dialect.any (fun c => c.request == request) = true)
    (by unfold RequestedAs; cases p.dialect <;> simp)

/-! ## What a call does -/

/-- What a publication entered was reviewed against, and what was checked of it. -/
structure EnteredBy (e : Tools) (o : Outside) (id : String) (req : DialectPublicationRequest) (seen before : PublicationLedger)
    (p : ArtifactPublication) : Prop where
  sound : LedgerSound e before
  request : RequestedAs (e.requestID (req.identity id)) p
  releases : Releases (req.identity id) p
  unmet : completedBy before (e.requestID (req.identity id)) = none
  base : latestDialectPublication before id req.variant = latestDialectPublication seen id req.variant
  impact : checkArtifactImpact e.runtime
    (((seen.items.find? (·.id == latestDialectPublication seen id req.variant)).bind (·.documents.head?)).map (·.version) |>.getD "")
    req.version req.impact = .ok ()
  asked : req.basePublication = some (latestDialectPublication before id req.variant)
  review : ∃ ref review, p.review = some ref ∧ artifactReview o ref = .ok review ∧
    review.basePublication = latestDialectPublication before id req.variant

/-- All that a call can do to the ledger. -/
inductive CallEffect (e : Tools) (o : Outside) (id : String) (req : DialectPublicationRequest) (seen before after : PublicationLedger) :
    Prop where
  | same (h : after = before)
  | receipt (prior : ArtifactPublication) (hmem : prior ∈ seen.items) (hreleases : Releases (req.identity id) prior)
      (h : after = { before with receipts := before.receipts.insert (e.requestID (req.identity id)) prior.id })
  | entered (p : ArtifactPublication) (hp : EnteredBy e o id req seen before p) (hid : ∀ q ∈ before.items, q.id ≠ p.id)
      (h : after = { before with items := before.items ++ [p] })

/-- What a call answers as saved. -/
inductive Answers (e : Tools) (id : String) (req : DialectPublicationRequest) (seen before after : PublicationLedger)
    (p : ArtifactPublication) : Prop where
  | seen (hsound : LedgerSound e seen) (h : completedBy seen (e.requestID (req.identity id)) = some p)
  | found (hsound : LedgerSound e before) (h : completedBy before (e.requestID (req.identity id)) = some p)
  | prior (hmem : p ∈ seen.items) (hreleases : Releases (req.identity id) p)
  | entered (hopen : completedBy before (e.requestID (req.identity id)) = none) (hin : ∃ q ∈ after.items, q.id = p.id)
    (hnew : ∀ q ∈ after.items, q ∈ before.items ∨ q = p)

variable {id : String} {req : DialectPublicationRequest} {seen : PublicationLedger} {d₀ : Disk}

/-- The triple of a call that begins at `d₀`. -/
abbrev Calls (e : Tools) (o : Outside) (id : String) (req : DialectPublicationRequest) (seen : PublicationLedger) (d₀ : Disk)
    (p : Saves Disk String DialectPublicationAnswer) : Prop :=
  Keeps (fun d => d = d₀) p
    (fun ans d => CallEffect e o id req seen d₀.ledger d.ledger ∧
      (ans.saved = true → Answers e id req seen d₀.ledger d.ledger ans.publication))
    fun d => CallEffect e o id req seen d₀.ledger d.ledger

theorem same_of_eq {d : Disk} (h : d = d₀) : CallEffect e o id req seen d₀.ledger d.ledger := .same (by rw [h])

theorem sound_of_read {history : Option PublicationLedger} {ledger : PublicationLedger}
    (h : readPublicationLedger e history = .ok ledger) : ledger = history.getD {} ∧ LedgerSound e ledger := by
  cases history with
  | none =>
    cases h
    exact ⟨rfl, ledgerSound_empty e⟩
  | some saved =>
    obtain ⟨rfl, _, hsound⟩ := (readPublicationLedger_eq_ok e).mp h
    exact ⟨rfl, hsound⟩

theorem mem_of_completedBy {ledger : PublicationLedger} {request : String} {p : ArtifactPublication}
    (h : completedBy ledger request = some p) : p ∈ ledger.items := List.mem_of_find?_eq_some h

theorem keeps_receipt_effect {prior : ArtifactPublication} (hmem : prior ∈ seen.items) (hreleases : Releases (req.identity id) prior) :
    Keeps (fun d => d = d₀) (retainPublicationReceipt e (e.requestID (req.identity id)) prior.id)
      (fun _ d => CallEffect e o id req seen d₀.ledger d.ledger) fun d => CallEffect e o id req seen d₀.ledger d.ledger := by
  unfold retainPublicationReceipt
  refine keeps_load fun d hd => ?_
  subst hd
  have hC : ∀ s, s = d → CallEffect e o id req seen d.ledger s.ledger := fun s hs => same_of_eq hs
  refine keeps_lift_bind hC fun ledger hledger => ?_
  have hl := readPublicationLedger_ledger hledger
  subst hl
  split
  · split_ifs
    · exact keeps_refuse hC
    · exact keeps_pure hC
  · refine keeps_unless hC fun _ => keeps_unless hC fun _ => ?_
    exact keeps_writePublicationLedger hC fun s hs _ => .receipt prior hmem hreleases (by subst hs; rfl)

theorem reviewed_against {saved : SavedPreparation} {candidate : ArtifactPublication} {base : String} {retained : ArtifactReview}
    (h : dialectReview e id req saved candidate base = some retained) : retained.basePublication = base := by
  unfold dialectReview at h
  split at h
  · cases h
    rfl
  · cases h

theorem keeps_commit_effect {saved : SavedPreparation} {checked : DialectReport} {ref : RetainedArtifactRef}
    {retained : ArtifactReview}
    (himpact : checkArtifactImpact e.runtime
      (((seen.items.find? (·.id == latestDialectPublication seen id req.variant)).bind (·.documents.head?)).map (·.version) |>.getD "")
      req.version req.impact = .ok ())
    (hasked : req.basePublication = some (latestDialectPublication seen id req.variant)) (href : req.review = some ref)
    (hretained : artifactReview o ref = .ok retained)
    (hbase : retained.basePublication = latestDialectPublication seen id req.variant) :
    Calls e o id req seen d₀ (commitDialect e o id req saved checked (dialectCandidate e o id req saved checked)
      (latestDialectPublication seen id req.variant)) := by
  unfold commitDialect
  refine keeps_load fun d hd => ?_
  subst hd
  have hC : ∀ s, s = d → CallEffect e o id req seen d.ledger s.ledger := fun s hs => same_of_eq hs
  refine keeps_lift_bind hC fun ledger hledger => ?_
  have hsound := (sound_of_read hledger).2
  have hl := readPublicationLedger_ledger hledger
  subst hl
  split
  · next p hdone =>
    exact keeps_pure fun s hs => ⟨hC s hs, fun _ => .found hsound hdone⟩
  · next hopen =>
    refine keeps_unless hC fun hlatest => ?_
    have hlatest : latestDialectPublication d.ledger id req.variant = latestDialectPublication seen id req.variant :=
      not_not.mp hlatest
    refine keeps_lift_bind hC fun _ _ => keeps_lift_bind hC fun _ _ => keeps_lift_bind hC fun _ _ => ?_
    -- the one save of the transaction: the candidate enters, where no item has its identity
    let reviewed := { dialectCandidate e o id req saved checked with review := req.review }
    let entry := { reviewed with id := publicationID e reviewed }
    refine keeps_bind (Q := fun _ s => CallEffect e o id req seen d.ledger s.ledger ∧ (∃ q ∈ s.items, q.id = entry.id) ∧
      ∀ q ∈ s.items, q ∈ d.items ∨ q = entry) ?_ fun _ => ?_
    · refine keeps_writePublicationLedger hC fun s hs _ => ?_
      subst hs
      unfold withCandidate
      split_ifs with hany
      · obtain ⟨q, hq, hqid⟩ := List.any_eq_true.mp hany
        exact ⟨.same rfl, ⟨q, hq, beq_iff_eq.mp hqid⟩, fun _ hq => Or.inl hq⟩
      · refine ⟨.entered _ ⟨hsound, ⟨_, rfl, rfl⟩, ⟨?_, rfl⟩, hopen, hlatest, himpact, ?_, ref, retained, href, hretained, ?_⟩ ?_ rfl,
          ⟨entry, List.mem_append_right _ (List.mem_singleton.mpr rfl), rfl⟩, fun q hq => ?_⟩
        · simp [ofDialect, dialectCandidate, DialectPublicationRequest.identity]
        · rw [hlatest]
          exact hasked
        · rw [hlatest]
          exact hbase
        · simpa using hany
        · exact (List.mem_append.mp hq).imp_right List.mem_singleton.mp
    · exact keeps_pure fun s hs => ⟨hs.1, fun _ => .entered hopen hs.2.1 hs.2.2⟩

theorem keeps_release_effect {saved : SavedPreparation} {checked : DialectReport} :
    Calls e o id req seen d₀ (releaseDialect e o id req seen saved checked (dialectCandidate e o id req saved checked)) := by
  unfold releaseDialect
  have hC : ∀ s, s = d₀ → CallEffect e o id req seen d₀.ledger s.ledger := fun s hs => same_of_eq hs
  refine keeps_unless hC fun hbase => ?_
  refine keeps_lift_bind hC fun _ _ => keeps_lift_bind hC fun _ himpact => ?_
  by_cases hpublish : ¬req.publish = true
  · rw [if_pos hpublish]
    refine keeps_lift_bind hC fun _ _ => keeps_pure fun s hs => ⟨hC s hs, fun hsaved => ?_⟩
    cases hsaved
  rw [if_neg hpublish]
  refine keeps_unless hC fun _ => ?_
  split
  · exact keeps_refuse hC
  · next ref href =>
    refine keeps_lift_bind hC fun retained hretained => ?_
    refine keeps_unless hC fun hsame => ?_
    have hasked : req.basePublication = some (latestDialectPublication seen id req.variant) := by
      refine not_not.mp fun hne => hbase ⟨not_not.mp hpublish, Or.inl hne⟩
    exact keeps_commit_effect himpact hasked href hretained (reviewed_against (not_not.mp hsame))

theorem releases_of_same {saved : SavedPreparation} {checked : DialectReport} {ledger : PublicationLedger} {prior : ArtifactPublication}
    (h : (ledger.items.reverse.find? (ofDialect id req.variant)).filter
      (sameRelease · (dialectCandidate e o id req saved checked)) = some prior) :
    prior ∈ ledger.items ∧ Releases (req.identity id) prior := by
  obtain ⟨hfind, hsame⟩ := Option.filter_eq_some_iff.mp h
  refine ⟨List.mem_reverse.mp (List.mem_of_find?_eq_some hfind), List.find?_some hfind, ?_⟩
  unfold sameRelease at hsame
  split at hsame
  · next _ _ x y _ _ hx hy =>
    rw [Bool.and_eq_true, beq_iff_eq, beq_iff_eq] at hsame
    have hy : y.version = req.version := by
      cases hy
      rfl
    rw [ArtifactPublication.version, hx, hsame.2]
    exact hy
  · cases hsame

/-- The spec of a call: what it does, and what it answers as saved. -/
theorem keeps_call (d : DialectOutside) :
    Calls e o id req (d.seen.getD {}) d₀ (publishCheckedDialect e o id req d) := by
  unfold publishCheckedDialect
  have hC : ∀ s, s = d₀ → CallEffect e o id req (d.seen.getD {}) d₀.ledger s.ledger := fun s hs => same_of_eq hs
  refine keeps_lift_bind hC fun ledger hledger => ?_
  obtain ⟨hseen, hsound⟩ := sound_of_read hledger
  subst hseen
  simp only
  split
  · next p hdone => exact keeps_pure fun s hs => ⟨hC s hs, fun _ => .seen hsound hdone⟩
  · refine keeps_unless hC fun _ => keeps_unless hC fun _ => ?_
    refine keeps_lift_bind hC fun r _ => ?_
    obtain ⟨saved, checked⟩ := r
    refine keeps_lift_bind hC fun _ _ => ?_
    split
    · next prior hprior =>
      obtain ⟨hmem, hreleases⟩ := releases_of_same hprior
      refine keeps_bind (keeps_receipt_effect hmem hreleases) fun _ => ?_
      exact keeps_pure fun s hs => ⟨hs, fun _ => .prior hmem hreleases⟩
    · exact keeps_release_effect

theorem call_effect (e : Tools) (o : Outside) (id : String) (req : DialectPublicationRequest) (d : DialectOutside) (saves : Nat)
    (d₀ : Disk) :
    CallEffect e o id req (d.seen.getD {}) d₀.ledger (publishCheckedDialect e o id req d saves d₀).store.ledger := by
  have hcall : Calls e o id req (d.seen.getD {}) d₀ (publishCheckedDialect e o id req d) := keeps_call d
  exact (hcall.weaken (fun _ h => h) (fun _ _ h => h.1) fun _ h => h).store rfl

/-! ## One item a request -/

/-- The Runtime's order of versions: the version chosen for a change is later, and later is an order. -/
structure Runtime.Lawful (rt : Runtime) : Prop where
  later : ∀ base classification version, rt.choice base classification = some version → rt.compare base version = some .greater
  trans : ∀ a b c, rt.compare a b = some .greater → rt.compare b c = some .greater → rt.compare a c = some .greater
  irrefl : ∀ a, rt.compare a a ≠ some .greater

/-- The items of a ledger and its receipts are of the requests asked, no two of one request or one release. -/
structure Single (e : Tools) (asked : RequestID → Prop) (ledger : PublicationLedger) : Prop where
  rising : ledger.items.Pairwise fun p q => ∀ id variant, ofDialect id variant p = true → ofDialect id variant q = true →
    e.runtime.compare p.version q.version = some .greater
  single : ledger.items.Pairwise fun p q => ∀ request, RequestedAs request p → ¬RequestedAs request q
  own : ∀ p ∈ ledger.items, ∀ request, RequestedAs request p → ∃ t, asked t ∧ request = e.requestID t ∧ Releases t p
  receipts : ∀ request i, ledger.receipts.lookup request = some i →
    ∃ t, asked t ∧ request = e.requestID t ∧ ∃ q ∈ ledger.items, q.id = i ∧ Releases t q

theorem pairwise_or {α : Type} {R : α → α → Prop} {l : List α} (h : l.Pairwise R) {a b : α} (ha : a ∈ l) (hb : b ∈ l) (hne : a ≠ b) :
    R a b ∨ R b a := by
  have hsymm : Std.Symm fun a b => R a b ∨ R b a := ⟨fun _ _ => Or.symm⟩
  exact (h.imp Or.inl : l.Pairwise fun a b => R a b ∨ R b a).forall ha hb hne

section
variable {asked : RequestID → Prop} {ledger before after : PublicationLedger} {p q : ArtifactPublication}

theorem Single.release (h : Single e asked ledger) (law : e.runtime.Lawful) {t : RequestID} (hp : p ∈ ledger.items)
    (hq : q ∈ ledger.items) (hrp : Releases t p) (hrq : Releases t q) : p = q := by
  by_contra hne
  rcases pairwise_or h.rising hp hq hne with hlt | hlt
  · have := hlt t.preparation t.variant hrp.1 hrq.1
    rw [hrp.2, hrq.2] at this
    exact law.irrefl _ this
  · have := hlt t.preparation t.variant hrq.1 hrp.1
    rw [hrp.2, hrq.2] at this
    exact law.irrefl _ this

theorem Single.request (h : Single e asked ledger) {request : String} (hp : p ∈ ledger.items) (hq : q ∈ ledger.items)
    (hrp : RequestedAs request p) (hrq : RequestedAs request q) : p = q := by
  by_contra hne
  rcases pairwise_or h.single hp hq hne with hnot | hnot
  · exact hnot request hrp hrq
  · exact hnot request hrq hrp

theorem completedBy_spec {request : String} (h : completedBy ledger request = some p) :
    p ∈ ledger.items ∧ (RequestedAs request p ∨ ledger.receipts.lookup request = some p.id) := by
  refine ⟨mem_of_completedBy h, ?_⟩
  have hp := List.find?_some h
  split at hp
  · next c hc =>
    rw [Bool.or_eq_true, beq_iff_eq, beq_iff_eq] at hp
    exact hp.imp_left fun hr => ⟨c, hc, hr⟩
  · cases hp

theorem completedBy_isSome {request : String} (hp : p ∈ ledger.items) (hr : RequestedAs request p) :
    ∃ q, completedBy ledger request = some q := by
  obtain ⟨c, hc, hr⟩ := hr
  refine Option.isSome_iff_exists.mp (List.find?_isSome.mpr ⟨p, hp, ?_⟩)
  simp [hc, hr]

/-- Two ledgers, one an earlier of the other: what completed a request there is what it entered here. -/
theorem Single.completed (hbefore : Single e asked before) (hsound : LedgerSound e before) (hafter : Single e asked after)
    (law : e.runtime.Lawful) (hinj : ∀ t u, asked t → asked u → e.requestID t = e.requestID u → t = u)
    (hsub : ∀ r ∈ before.items, r ∈ after.items) {request : String} (hp : p ∈ after.items) (hr : RequestedAs request p)
    (hq : completedBy before request = some q) : q = p := by
  obtain ⟨hmem, hreq | hreceipt⟩ := completedBy_spec hq
  · exact hafter.request (hsub q hmem) hp hreq hr
  · obtain ⟨t, ht, hrequest, q', hq', hid, hrel⟩ := hbefore.receipts request q.id hreceipt
    have hsame : q' = q := List.inj_on_of_nodup_map hsound.ids hq' hmem hid
    subst hsame
    obtain ⟨u, hu, hrequest', hrelp⟩ := hafter.own p hp request hr
    have htu := hinj t u ht hu (hrequest.symm.trans hrequest')
    subst htu
    exact hafter.release law (hsub q' hmem) hp hrel hrelp

/-- The latest item of a preparation and variant follows the others. -/
theorem latest_spec {id variant : String} (h : ∃ r ∈ ledger.items, ofDialect id variant r = true) :
    ∃ c ∈ ledger.items, ofDialect id variant c = true ∧ latestDialectPublication ledger id variant = c.id ∧
      ∀ r ∈ ledger.items, ofDialect id variant r = true → r = c ∨ ∃ a b, ledger.items = a ++ c :: b ∧ r ∈ a := by
  obtain ⟨r₀, hr₀, hd₀⟩ := h
  obtain ⟨c, hc⟩ := Option.isSome_iff_exists.mp (List.find?_isSome.mpr ⟨r₀, List.mem_reverse.mpr hr₀, hd₀⟩)
  refine ⟨c, List.mem_reverse.mp (List.mem_of_find?_eq_some hc), List.find?_some hc, by rw [latestDialectPublication, hc]; rfl, ?_⟩
  intro r hr hd
  obtain ⟨_, as, bs, hsplit, hnone⟩ := List.find?_eq_some_iff_append.mp hc
  have hitems : ledger.items = bs.reverse ++ c :: as.reverse := by
    rw [← List.reverse_reverse ledger.items, hsplit]
    simp
  rw [hitems] at hr
  rcases List.mem_append.mp hr with hr | hr
  · exact Or.inr ⟨_, _, hitems, hr⟩
  · rcases List.mem_cons.mp hr with rfl | hr
    · exact Or.inl rfl
    · have := hnone r (List.mem_reverse.mp hr)
      rw [hd] at this
      cases this

theorem Single.last (h : Single e asked ledger) {id variant : String} {a b : List ArtifactPublication}
    (heq : ledger.items = a ++ p :: b) (hq : q ∈ a) (hdq : ofDialect id variant q = true) (hdp : ofDialect id variant p = true) :
    e.runtime.compare q.version p.version = some .greater := by
  have := h.rising
  rw [heq] at this
  exact (List.pairwise_append.mp this).2.2 q hq p List.mem_cons_self id variant hdq hdp

/-- What an entered publication is later than: every release before it. -/
theorem EnteredBy.later {id : String} {req : DialectPublicationRequest} {seen : PublicationLedger}
    (h : EnteredBy e o id req seen before p) (hs : Single e asked before) (law : e.runtime.Lawful)
    (hdigest : ∀ q, e.publicationDigest q ≠ "") (hseen : seen.items <+: before.items) :
    ∀ r ∈ before.items, ofDialect id req.variant r = true → e.runtime.compare r.version req.version = some .greater := by
  intro r hr hd
  obtain ⟨c, hc, hdc, hlatest, hrest⟩ := latest_spec ⟨r, hr, hd⟩
  have hvalid := h.sound.items c hc
  -- the base of the review is `c`, which the ledger first read has as well
  have hbase : latestDialectPublication seen id req.variant = c.id := h.base.symm.trans hlatest
  have hne : c.id ≠ "" := by
    rw [hvalid.id]
    exact hdigest _
  have hin : c ∈ seen.items := by
    cases hfind : seen.items.reverse.find? (ofDialect id req.variant) with
    | none =>
      rw [latestDialectPublication, hfind] at hbase
      exact absurd hbase.symm hne
    | some c' =>
      rw [latestDialectPublication, hfind] at hbase
      have hc' : c' ∈ seen.items := List.mem_reverse.mp (List.mem_of_find?_eq_some hfind)
      have hsame : c' = c := List.inj_on_of_nodup_map h.sound.ids (hseen.subset hc') hc hbase
      rw [← hsame]
      exact hc'
  have hfound : seen.items.find? (·.id == latestDialectPublication seen id req.variant) = some c := by
    rw [hbase]
    obtain ⟨c', hc'⟩ := Option.isSome_iff_exists.mp (List.find?_isSome (p := fun q : ArtifactPublication => q.id == c.id).mpr ⟨c, hin, beq_self_eq_true c.id⟩)
    have hid : (c'.id == c.id) = true := List.find?_some (p := fun q : ArtifactPublication => q.id == c.id) hc'
    have hsame : c' = c := List.inj_on_of_nodup_map h.sound.ids (hseen.subset (List.mem_of_find?_eq_some hc'))
      hc (beq_iff_eq.mp hid)
    rw [hc', hsame]
  have hversion : c.version ≠ "" ∧
      (((seen.items.find? (·.id == latestDialectPublication seen id req.variant)).bind (·.documents.head?)).map (·.version) |>.getD "")
        = c.version := by
    rw [hfound]
    refine ⟨?_, rfl⟩
    have hcovers := hvalid.covers
    unfold ArtifactPublication.covers at hcovers
    unfold ofDialect at hdc
    split at hdc
    · next ctx hctx =>
      simp only [hctx, DialectPublicationContext.valid, Bool.and_eq_true] at hcovers
      have hdocs := hcovers.2
      split at hdocs
      · next doc hdoc =>
        have hdv := hvalid.documents
        rw [hdoc, List.all_cons, Bool.and_eq_true, PublishedDocument.valid, Bool.and_eq_true, Bool.and_eq_true, Bool.and_eq_true,
          bne_iff_ne, bne_iff_ne] at hdv
        rw [ArtifactPublication.version, hdoc]
        exact hdv.1.1.1.2
      · cases hdocs
    · cases hdc
  have himpact := h.impact
  rw [hversion.2] at himpact
  unfold checkArtifactImpact at himpact
  split_ifs at himpact with _ _ _ hinitial _ hchoice
  · exact absurd ‹c.version = ""› hversion.1
  · have hlater := law.later _ _ _ (not_not.mp hchoice)
    rcases hrest r hr hd with rfl | ⟨a, b, heq, hra⟩
    · exact hlater
    · exact law.trans _ _ _ (hs.last heq hra hd hdc) hlater

theorem not_requestedAs_of_open {request : String} (h : completedBy before request = none) :
    ∀ r ∈ before.items, ¬RequestedAs request r := by
  intro r hr hreq
  obtain ⟨q, hq⟩ := completedBy_isSome hr hreq
  rw [h] at hq
  cases hq

/-- A call keeps one item a request. -/
theorem CallEffect.single {id : String} {req : DialectPublicationRequest} {seen : PublicationLedger}
    (h : CallEffect e o id req seen before after) (hs : Single e asked before) (law : e.runtime.Lawful)
    (hdigest : ∀ q, e.publicationDigest q ≠ "") (hseen : seen.items <+: before.items) (hasked : asked (req.identity id)) :
    Single e asked after ∧ before.items <+: after.items := by
  cases h with
  | same h =>
    subst h
    exact ⟨hs, List.prefix_rfl⟩
  | receipt prior hmem hreleases h =>
    subst h
    refine ⟨⟨hs.rising, hs.single, hs.own, fun request i hlookup => ?_⟩, List.prefix_rfl⟩
    by_cases hk : request = e.requestID (req.identity id)
    · subst hk
      rw [Finmap.lookup_insert] at hlookup
      cases hlookup
      exact ⟨_, hasked, rfl, prior, hseen.subset hmem, rfl, hreleases⟩
    · rw [Finmap.lookup_insert_of_ne _ hk] at hlookup
      exact hs.receipts request i hlookup
  | entered p hp hid h =>
    subst h
    refine ⟨⟨?_, ?_, fun q hq request hr => ?_, fun request i hlookup => ?_⟩, List.prefix_append _ _⟩
    · refine List.pairwise_append.mpr ⟨hs.rising, List.pairwise_singleton _ _, fun q hq r hr id' variant' hdq hdr => ?_⟩
      cases List.mem_singleton.mp hr
      have hsame : id' = id ∧ variant' = req.variant := by
        have h₁ := hp.releases.1
        unfold ofDialect at hdr h₁
        split at hdr
        · next c hc =>
          rw [hc] at h₁
          simp only [Bool.and_eq_true, beq_iff_eq] at hdr h₁
          exact ⟨hdr.1.symm.trans h₁.1, hdr.2.symm.trans h₁.2⟩
        · cases hdr
      obtain ⟨rfl, rfl⟩ := hsame
      rw [hp.releases.2]
      exact hp.later hs law hdigest hseen q hq hdq
    · refine List.pairwise_append.mpr ⟨hs.single, List.pairwise_singleton _ _, fun q hq r hr request hrq hrr => ?_⟩
      cases List.mem_singleton.mp hr
      have hrequest : request = e.requestID (req.identity id) := by
        obtain ⟨c, hc, rfl⟩ := hrr
        obtain ⟨c', hc', hr'⟩ := hp.request
        rw [hc] at hc'
        cases hc'
        exact hr'
      exact not_requestedAs_of_open hp.unmet q hq (hrequest ▸ hrq)
    · rcases List.mem_append.mp hq with hq | hq
      · exact hs.own q hq request hr
      · cases List.mem_singleton.mp hq
        refine ⟨_, hasked, ?_, hp.releases⟩
        obtain ⟨c, hc, rfl⟩ := hr
        obtain ⟨c', hc', hr'⟩ := hp.request
        rw [hc] at hc'
        cases hc'
        exact hr'
    · obtain ⟨t, ht, hrequest, q, hq, hqid, hrel⟩ := hs.receipts request i hlookup
      exact ⟨t, ht, hrequest, q, List.mem_append_left _ hq, hqid, hrel⟩

end

end Publication

end Desk
