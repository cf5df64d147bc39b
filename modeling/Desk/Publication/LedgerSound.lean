import Desk.Lib.Keyed
import Desk.Publication.Ledger

/-!
# What a ledger is read as

A ledger is accepted where its items are valid and distinct, its receipts name
items, and no version of an artifact has two contents.
-/

namespace Desk

namespace Publication

variable (e : Tools)

/-! ## One content a version -/

/-- No version of an artifact names two contents. -/
def OneContent (docs : List PublishedDocument) : Prop :=
  ∀ d ∈ docs, ∀ d' ∈ docs, d.key = d'.key → d.content = d'.content

theorem admitDocuments_eq_ok {docs : List PublishedDocument} {identities : List ((String × String × String) × RetainedArtifactRef)} :
    admitDocuments identities docs = .ok () ↔
      (∀ d ∈ docs, ∀ c, identities.lookup d.key = some c → c = d.content) ∧ OneContent docs := by
  induction docs generalizing identities with
  | nil => simp [admitDocuments, OneContent]
  | cons d rest ih =>
    unfold admitDocuments
    by_cases hd : (identities.lookup d.key).all (· = d.content) = true
    · rw [if_pos hd, ih]
      have hold : ∀ c, identities.lookup d.key = some c → c = d.content := by
        intro c hc
        simpa [hc] using hd
      have hnew : ∀ x : PublishedDocument, ((d.key, d.content) :: identities).lookup x.key =
          if x.key = d.key then some d.content else identities.lookup x.key := by
        intro x
        by_cases hx : x.key = d.key
        · simp [hx]
        · have : (x.key == d.key) = false := by simpa using hx
          simp [hx, List.lookup_cons, this]
      constructor
      · rintro ⟨h, hone⟩
        have hrest : ∀ x ∈ rest, x.key = d.key → d.content = x.content := by
          intro x hx hk
          exact h x hx _ (by rw [hnew, if_pos hk])
        refine ⟨?_, ?_⟩
        · intro x hx c hc
          rcases List.mem_cons.mp hx with rfl | hx
          · exact hold c hc
          · by_cases hk : x.key = d.key
            · exact (hold c (hk ▸ hc)).trans (hrest x hx hk)
            · exact h x hx c (by rw [hnew, if_neg hk]; exact hc)
        · intro x hx y hy hk
          rcases List.mem_cons.mp hx with rfl | hx
          · rcases List.mem_cons.mp hy with rfl | hy
            · rfl
            · exact hrest y hy hk.symm
          · rcases List.mem_cons.mp hy with hy | hy
            · rw [hy] at hk ⊢
              exact (hrest x hx hk).symm
            · exact hone x hx y hy hk
      · rintro ⟨h, hone⟩
        refine ⟨?_, fun x hx y hy => hone x (List.mem_cons_of_mem _ hx) y (List.mem_cons_of_mem _ hy)⟩
        intro x hx c hc
        rw [hnew] at hc
        by_cases hk : x.key = d.key
        · rw [if_pos hk] at hc
          cases hc
          exact hone d (List.mem_cons_self ..) x (List.mem_cons_of_mem _ hx) hk.symm
        · rw [if_neg hk] at hc
          exact h x (List.mem_cons_of_mem _ hx) c hc
    · rw [if_neg hd]
      constructor
      · intro h
        cases h
      · rintro ⟨h, _⟩
        refine absurd ?_ hd
        cases hl : identities.lookup d.key with
        | none => rfl
        | some c => simpa using h d (List.mem_cons_self ..) c hl

theorem admitPublication_eq_ok {ledger : PublicationLedger} {candidate : List PublishedDocument} :
    admitPublication ledger candidate = .ok () ↔ OneContent (documentsOf ledger.items ++ candidate) := by
  unfold admitPublication
  rw [admitDocuments_eq_ok]
  simp

theorem documentsOf_append (a b : List ArtifactPublication) : documentsOf (a ++ b) = documentsOf a ++ documentsOf b :=
  List.flatMap_append

@[simp] theorem documentsOf_singleton (p : ArtifactPublication) : documentsOf [p] = p.documents := by
  simp [documentsOf]

theorem mem_documentsOf {items : List ArtifactPublication} {d : PublishedDocument} :
    d ∈ documentsOf items ↔ ∃ p ∈ items, d ∈ p.documents := List.mem_flatMap

/-! ## Items -/

/-- What the reader asks of an item alone. -/
structure ItemValid (p : ArtifactPublication) : Prop where
  review : p.review.all (·.valid) = true
  id : p.id = publicationID e p
  covers : p.covers = true
  at_ : p.at_ ≠ ""
  reviews : p.reviews.all (·.valid) = true
  documents : p.documents.all PublishedDocument.valid = true

theorem readItems_eq_ok {items : List ArtifactPublication} {ids ids' : List String} :
    readItems e ids items = .ok ids' ↔
      (∀ p ∈ items, ItemValid e p) ∧ (items.map (·.id)).Nodup ∧ (∀ p ∈ items, p.id ∉ ids) ∧
        ids' = (items.map (·.id)).reverse ++ ids := by
  induction items generalizing ids with
  | nil => simp [readItems, eq_comm]
  | cons p rest ih =>
    unfold readItems
    split_ifs with h₁ h₂ h₃
    · refine ⟨nofun, fun ⟨hv, _, hn, _⟩ => ?_⟩
      have hp := hv p (List.mem_cons_self ..)
      have hid := hn p (List.mem_cons_self ..)
      simp [hp.review, hp.covers, hp.at_, hid] at h₁
      exact h₁ hp.id
    · refine ⟨nofun, fun ⟨hv, _⟩ => ?_⟩
      simp [(hv p (List.mem_cons_self ..)).reviews] at h₂
    · refine ⟨nofun, fun ⟨hv, _⟩ => ?_⟩
      simp [(hv p (List.mem_cons_self ..)).documents] at h₃
    · rw [ih]
      simp only [Bool.or_eq_true, Bool.not_eq_true', bne_iff_ne, beq_iff_eq, not_or, Bool.not_eq_false, ne_eq,
        Decidable.not_not, Bool.not_eq_true, List.contains_eq_mem, decide_eq_false_iff_not] at h₁ h₂ h₃
      obtain ⟨⟨⟨⟨hreview, hid⟩, hnew⟩, hcovers⟩, hat⟩ := h₁
      have hp : ItemValid e p := ⟨hreview, hid, hcovers, hat, h₂, h₃⟩
      simp only [List.mem_cons, forall_eq_or_imp, List.map_cons, List.nodup_cons, List.reverse_cons, List.append_assoc,
        List.cons_append, List.nil_append, not_or, List.mem_map, not_exists, not_and]
      constructor
      · rintro ⟨hv, hn, hids, rfl⟩
        exact ⟨⟨hp, hv⟩, ⟨fun q hq hqid => (hids q hq).1 hqid, hn⟩, ⟨hnew, fun q hq => (hids q hq).2⟩, rfl⟩
      · rintro ⟨⟨_, hv⟩, ⟨hfresh, hn⟩, ⟨_, hids⟩, rfl⟩
        exact ⟨hv, hn, fun q hq => ⟨fun h => hfresh q hq h, hids q hq⟩, rfl⟩

/-! ## Ledgers -/

/-- What the reader asks of a ledger besides its size. -/
structure LedgerSound (ledger : PublicationLedger) : Prop where
  items : ∀ p ∈ ledger.items, ItemValid e p
  ids : (ledger.items.map (·.id)).Nodup
  receiptCount : ledger.receipts.keys.card ≤ receiptLimit
  receipts : ∀ request ∈ ledger.receipts.keys, retainedArtifactDigest request = true ∧
    ∃ p ∈ ledger.items, ledger.receipts.lookup request = some p.id
  contents : OneContent (documentsOf ledger.items)

/-- What the writer asks. -/
def Fits (ledger : PublicationLedger) : Prop :=
  ledger.items.length ≤ 4096 ∧ e.ledgerSize ledger ≤ publicationLedgerLimit

theorem encodePublicationLedger_eq_ok {ledger ledger' : PublicationLedger} :
    encodePublicationLedger e ledger = .ok ledger' ↔ ledger' = ledger ∧ Fits e ledger := by
  unfold encodePublicationLedger Fits
  split_ifs with h
  · refine ⟨nofun, fun h' => ?_⟩
    omega
  · simp only [Except.ok.injEq]
    exact ⟨fun h' => ⟨h'.symm, by omega⟩, fun h' => h'.1.symm⟩

theorem ledgerSound_empty : LedgerSound e {} where
  items := by simp
  ids := by simp
  receiptCount := by simp
  receipts := by simp
  contents := by simp [OneContent, documentsOf]

theorem contains_ids {items : List ArtifactPublication} {ids : List String} (h : readItems e [] items = .ok ids) {id : String} :
    ids.contains id = true ↔ ∃ p ∈ items, p.id = id := by
  obtain ⟨_, _, _, rfl⟩ := (readItems_eq_ok e).mp h
  simp

theorem any_contains {items : List ArtifactPublication} {ids : List String} (h : readItems e [] items = .ok ids)
    {o : Option String} : o.any ids.contains = true ↔ ∃ p ∈ items, o = some p.id := by
  cases o with
  | none => simp
  | some id =>
    rw [Option.any_some, contains_ids e h]
    simp [eq_comm]

theorem readPublicationLedger_eq_ok {ledger ledger' : PublicationLedger} :
    readPublicationLedger e (some ledger) = .ok ledger' ↔ ledger' = ledger ∧ Fits e ledger ∧ LedgerSound e ledger := by
  simp only [readPublicationLedger, bind, Except.bind, pure, Except.pure, throw, throwThe, MonadExceptOf.throw]
  by_cases hsize : publicationLedgerLimit < e.ledgerSize ledger
  · simp only [hsize, if_true, reduceCtorEq, false_iff]
    exact fun h => absurd h.2.1.2 (by omega)
  by_cases hlen : 4096 < ledger.items.length
  · simp only [hsize, hlen, if_true, if_false, reduceCtorEq, false_iff]
    exact fun h => absurd h.2.1.1 (by omega)
  simp only [hsize, hlen, if_false]
  cases hids : readItems e [] ledger.items with
  | error why =>
    simp only [reduceCtorEq, false_iff]
    intro h
    have : readItems e [] ledger.items = .ok _ := (readItems_eq_ok e).mpr ⟨h.2.2.items, h.2.2.ids, by simp, rfl⟩
    rw [hids] at this
    cases this
  | ok ids =>
    obtain ⟨hitems, hnodup, _, _⟩ := (readItems_eq_ok e).mp hids
    by_cases hcount : receiptLimit < ledger.receipts.keys.card
    · simp only [hcount, if_true, reduceCtorEq, false_iff]
      exact fun h => absurd h.2.2.receiptCount (by omega)
    by_cases hreceipts : ∀ request ∈ ledger.receipts.keys, retainedArtifactDigest request = true ∧
        (ledger.receipts.lookup request).any ids.contains = true
    · simp only [hcount, if_false]
      rw [if_neg (not_not_intro hreceipts)]
      cases hadmits : admitPublication ledger [] with
      | error why =>
        simp only [reduceCtorEq, false_iff]
        intro h
        have := admitPublication_eq_ok.mpr (show OneContent (documentsOf ledger.items ++ []) by simpa using h.2.2.contents)
        rw [hadmits] at this
        cases this
      | ok u =>
        have hone : OneContent (documentsOf ledger.items) := by simpa using admitPublication_eq_ok.mp hadmits
        simp only [Except.ok.injEq]
        refine ⟨fun h => ⟨h.symm, ⟨by omega, by omega⟩, ⟨hitems, hnodup, by omega, ?_, hone⟩⟩, fun h => h.1.symm⟩
        intro request hr
        exact ⟨(hreceipts request hr).1, (any_contains e hids).mp (hreceipts request hr).2⟩
    · simp only [hcount, if_false]
      rw [if_pos hreceipts]
      simp only [reduceCtorEq, false_iff]
      intro h
      refine hreceipts fun request hr => ⟨(h.2.2.receipts request hr).1, (any_contains e hids).mpr (h.2.2.receipts request hr).2⟩

/-- A new item that is valid and names no other content. -/
theorem LedgerSound.append {ledger : PublicationLedger} (h : LedgerSound e ledger) {p : ArtifactPublication}
    (hp : ItemValid e p) (hid : ∀ q ∈ ledger.items, q.id ≠ p.id) (hone : OneContent (documentsOf ledger.items ++ p.documents)) :
    LedgerSound e { ledger with items := ledger.items ++ [p] } where
  items := by
    intro q hq
    rcases List.mem_append.mp hq with hq | hq
    · exact h.items q hq
    · exact List.mem_singleton.mp hq ▸ hp
  ids := by
    rw [List.map_append, List.map_singleton, nodup_append_singleton]
    exact ⟨h.ids, by simpa using hid⟩
  receiptCount := h.receiptCount
  receipts := by
    intro request hr
    obtain ⟨hform, q, hq, hl⟩ := h.receipts request hr
    exact ⟨hform, q, List.mem_append_left _ hq, hl⟩
  contents := by rwa [documentsOf_append, documentsOf_singleton]

theorem LedgerSound.withCandidate {ledger : PublicationLedger} (h : LedgerSound e ledger) {p : ArtifactPublication}
    (hp : ItemValid e p) (hone : OneContent (documentsOf ledger.items ++ p.documents)) :
    LedgerSound e (withCandidate ledger p) := by
  unfold Publication.withCandidate
  split_ifs with hid
  · exact h
  · refine h.append e hp ?_ hone
    simpa using hid

/-- A receipt of an item. -/
theorem LedgerSound.receipt {ledger : PublicationLedger} (h : LedgerSound e ledger) {request id : String}
    (hform : retainedArtifactDigest request = true) (hid : ∃ p ∈ ledger.items, p.id = id)
    (hcount : ledger.receipts.keys.card < receiptLimit) :
    LedgerSound e { ledger with receipts := ledger.receipts.insert request id } where
  items := h.items
  ids := h.ids
  receiptCount := by
    have : (ledger.receipts.insert request id).keys.card ≤ ledger.receipts.keys.card + 1 := by
      refine (Finset.card_le_card (t := insert request ledger.receipts.keys) ?_).trans (Finset.card_insert_le _ _)
      intro r hr
      simpa [Finmap.mem_keys] using hr
    show (ledger.receipts.insert request id).keys.card ≤ receiptLimit
    omega
  receipts := by
    intro r hr
    show retainedArtifactDigest r = true ∧ ∃ p ∈ ledger.items, (ledger.receipts.insert request id).lookup r = some p.id
    by_cases hk : r = request
    · obtain ⟨p, hp, rfl⟩ := hid
      subst hk
      exact ⟨hform, p, hp, Finmap.lookup_insert _⟩
    · rw [Finmap.lookup_insert_of_ne _ hk]
      refine h.receipts r ?_
      simpa [Finmap.mem_keys, hk] using hr
  contents := h.contents

end Publication

end Desk
