import Desk.Lib.Run
import Desk.Lib.Saves
import Desk.Workspace.GraphDrafts

/-!
# Graph drafts keep their history

What a deletion, a saved draft and a pending write are worth after any updates
and retentions that were accepted.
-/

namespace Desk

namespace GraphDrafts

variable {e : Tools}

/-! ## Values -/

theorem omitEmpty_inj {s t : String} (h : omitEmpty s = omitEmpty t) : s = t := by
  unfold omitEmpty at h
  by_cases hs : s = ""
  · by_cases ht : t = ""
    · rw [hs, ht]
    · rw [if_pos hs, if_neg ht] at h
      cases h
  · by_cases ht : t = ""
    · rw [if_neg hs, if_pos ht] at h
      cases h
    · rw [if_neg hs, if_neg ht] at h
      exact Option.some.inj h

theorem flag_inj {a b : Bool} (h : (if a then some true else none) = (if b then some true else none)) : a = b := by
  cases a <;> cases b <;> first | rfl | cases h

/-- Drafts written alike, of the same sources, are one. -/
theorem row_inj {a b : GraphDraft} (h : a.row = b.row) (hsources : a.policySources = b.policySources) : a = b := by
  have hdraft := Option.some.inj (congrArg Row.draftID h)
  have hid := Option.some.inj (congrArg Row.id h)
  have hpath := Option.some.inj (congrArg Row.path h)
  have hcontent := Option.some.inj (congrArg Row.content h)
  have hdescription := omitEmpty_inj (congrArg Row.description h)
  have hbase := omitEmpty_inj (congrArg Row.baseSHA256 h)
  have hcreated := Option.some.inj (congrArg Row.createdAt h)
  have hsaved := flag_inj (congrArg Row.saved h)
  have hpending := flag_inj (congrArg Row.writePending h)
  have horigin := omitEmpty_inj (congrArg Row.originChatID h)
  cases a
  cases b
  simp_all

theorem draft_row (d : GraphDraft) : d.row.draft = { d with policySources := d.policySources.filter (!·.isEmpty) } := by
  have hflag : ∀ b : Bool, ((if b then some true else none : Option Bool).getD false) = b := by
    intro b
    cases b <;> rfl
  have htext : ∀ s : String, (omitEmpty s).getD "" = s := by
    intro s
    unfold omitEmpty
    split
    · next hs => rw [hs]; rfl
    · rfl
  unfold GraphDraft.row Row.draft
  simp only [hflag, htext, Option.getD_some]

/-! ## A document accepted -/

/-- Identities are told apart, and none is both there and deleted. -/
structure WellFormed (doc : GraphDraftDocument) : Prop where
  nodup : (doc.drafts.map graphDraftIdentity).Nodup
  apart : ∀ d ∈ doc.drafts, graphDraftIdentity d ∉ doc.deleted
  valid : ∀ d ∈ doc.drafts, d.valid = true

theorem deletedSeen_some {seen deleted seen' : List String} (h : deletedSeen seen deleted = some seen') :
    ∀ id ∈ deleted, id ∈ seen' := by
  have hkeeps : ∀ (deleted seen seen' : List String), deletedSeen seen deleted = some seen' → ∀ id ∈ seen, id ∈ seen' := by
    intro deleted
    induction deleted with
    | nil =>
      intro seen seen' h id hid
      cases h
      exact hid
    | cons first rest ih =>
      intro seen seen' h id hid
      unfold deletedSeen at h
      split at h
      · cases h
      · exact ih _ _ h id (List.mem_cons_of_mem _ hid)
  induction deleted generalizing seen with
  | nil => nofun
  | cons first rest ih =>
    unfold deletedSeen at h
    split at h
    · cases h
    · intro id hid
      rcases List.mem_cons.mp hid with rfl | hid
      · exact hkeeps _ _ _ h id List.mem_cons_self
      · exact ih h id hid

theorem draftsSeen_iff {seen : List String} {drafts : List GraphDraft} (h : draftsSeen seen drafts = true) :
    (drafts.map graphDraftIdentity).Nodup ∧ ∀ d ∈ drafts, graphDraftIdentity d ∉ seen ∧ d.valid = true := by
  induction drafts generalizing seen with
  | nil => exact ⟨List.nodup_nil, nofun⟩
  | cons d rest ih =>
    unfold draftsSeen at h
    simp only [Bool.and_eq_true, Bool.not_eq_true', List.contains_eq_mem, decide_eq_false_iff_not] at h
    obtain ⟨⟨hvalid, hnew⟩, hrest⟩ := h
    obtain ⟨hnodup, hall⟩ := ih hrest
    refine ⟨?_, fun d' hd' => ?_⟩
    · rw [List.map_cons, List.nodup_cons]
      refine ⟨fun hmem => ?_, hnodup⟩
      obtain ⟨d', hd', heq⟩ := List.mem_map.mp hmem
      exact (hall d' hd').1 (heq ▸ List.mem_cons_self)
    · rcases List.mem_cons.mp hd' with rfl | hd'
      · exact ⟨hnew, hvalid⟩
      · exact ⟨fun hs => (hall d' hd').1 (List.mem_cons_of_mem _ hs), (hall d' hd').2⟩

theorem wellFormed_of_valid {text : Text} (h : validateGraphDrafts e text = true) : WellFormed text.document := by
  unfold validateGraphDrafts at h
  split at h
  · next rows deleted hrows hdeleted =>
    simp only [Bool.and_eq_true] at h
    obtain ⟨⟨_, hseen⟩, _⟩ := h
    obtain ⟨seen, hs, hdrafts⟩ : ∃ seen, deletedSeen [] deleted = some seen ∧ draftsSeen seen (rows.map Row.draft) = true := by
      cases hs : deletedSeen [] deleted with
      | none =>
        rw [hs] at hseen
        cases hseen
      | some seen =>
        rw [hs] at hseen
        exact ⟨seen, rfl, hseen⟩
    obtain ⟨hnodup, hall⟩ := draftsSeen_iff hdrafts
    have hdoc : text.document = ⟨rows.map Row.draft, deleted⟩ := by rw [Text.document, hrows, hdeleted]; rfl
    rw [hdoc]
    exact ⟨hnodup, fun d hd hin => (hall d hd).1 (deletedSeen_some hs _ hin), fun d hd => (hall d hd).2⟩
  · cases h

/-! ## What replaces a draft -/

/-- The project has the draft's text at its path, and declares it. -/
def Exactly (r : Request) (d : GraphDraft) : Prop :=
  r.readProjectFile d.path = some (bytesOf d.content) ∧
    ∃ graphs entry, r.graphs = some graphs ∧ graphs.get? d.id = some entry ∧ entry.path = d.path ∧
      entry.description = d.description

/-- A draft but for its progress to the project. -/
def GraphDraft.candidate (d : GraphDraft) : GraphDraft := { d with saved := false, writePending := false }

/-- What a draft may become. -/
structure Follows (old d : GraphDraft) : Prop where
  identity : graphDraftIdentity d = graphDraftIdentity old
  origin : d.originChatID = old.originChatID
  createdAt : d.createdAt = old.createdAt
  policySources : d.policySources = old.policySources
  saved : old.saved = true → d = old
  pending : old.writePending = true → d.candidate = old.candidate ∧ (d.writePending = true ∨ d.saved = true)

theorem Follows.refl (d : GraphDraft) : Follows d d :=
  ⟨rfl, rfl, rfl, rfl, fun _ => rfl, fun h => ⟨rfl, Or.inl h⟩⟩

theorem Follows.trans {a b c : GraphDraft} (h : Follows a b) (h' : Follows b c) : Follows a c where
  identity := h'.identity.trans h.identity
  origin := h'.origin.trans h.origin
  createdAt := h'.createdAt.trans h.createdAt
  policySources := h'.policySources.trans h.policySources
  saved hs := by
    have hb := h.saved hs
    subst hb
    exact h'.saved hs
  pending hp := by
    obtain ⟨hsame, hb | hb⟩ := h.pending hp
    · obtain ⟨hsame', hc⟩ := h'.pending hb
      exact ⟨hsame'.trans hsame, hc⟩
    · have hc := h'.saved hb
      subst hc
      exact ⟨hsame, Or.inr hb⟩

theorem reconciled_ok {r : Request} {d : GraphDraft} (h : reconciled r d = .ok ()) : Exactly r d := by
  unfold reconciled at h
  split at h
  · next data graphs hdata hgraphs =>
    by_cases hne : data ≠ bytesOf d.content
    · rw [if_pos hne] at h
      cases h
    · rw [if_neg hne] at h
      split at h
      · next entry hentry =>
        by_cases hsame : entry.path = d.path ∧ entry.description = d.description
        · exact ⟨by rw [hdata, not_not.mp hne], graphs, entry, hgraphs, hentry, hsame.1, hsame.2⟩
        · rw [if_neg hsame] at h
          cases h
      · cases h
  · cases h

/-- The spec of a replacement. -/
theorem replaceDraft_ok {r : Request} {old d : GraphDraft} (hid : graphDraftIdentity d = graphDraftIdentity old)
    (h : replaceDraft r old d = .ok ()) :
    Follows old d ∧ (old.writePending = true → d.saved = true → Exactly r d) := by
  unfold replaceDraft at h
  dsimp only at h
  by_cases hkept : old.policySources ≠ d.policySources ∨ old.createdAt ≠ d.createdAt ∨ old.originChatID ≠ d.originChatID ∨
      (old.saved = true ∧ sameDraft old d = false)
  · rw [if_pos hkept] at h
    cases h
  rw [if_neg hkept] at h
  simp only [not_or, not_and, ne_eq, not_not, Bool.not_eq_false] at hkept
  obtain ⟨hsources, hcreated, horigin, hsame⟩ := hkept
  have hsaved : old.saved = true → d = old := fun hs => (row_inj (of_decide_eq_true (hsame hs)) hsources).symm
  by_cases hfree : old.writePending = false
  · refine ⟨⟨hid, horigin.symm, hcreated.symm, hsources.symm, hsaved, fun hp => ?_⟩, fun hp => ?_⟩
    · rw [hfree] at hp
      cases hp
    · rw [hfree] at hp
      cases hp
  rw [if_neg hfree] at h
  split at h
  · cases h
  · next hexact =>
    simp only [not_or, not_and, Bool.not_eq_false] at hexact
    have hfrozen : ({ old with writePending := false } : GraphDraft) = { d with writePending := false, saved := false } :=
      row_inj (of_decide_eq_true hexact.1) hsources
    have hcandidate : d.candidate = old.candidate := (congrArg GraphDraft.candidate hfrozen).symm
    refine ⟨⟨hid, horigin.symm, hcreated.symm, hsources.symm, hsaved, fun _ => ⟨hcandidate, ?_⟩⟩, fun _ hs => ?_⟩
    · cases hp : d.writePending with
      | true => exact Or.inl rfl
      | false => exact Or.inr (hexact.2 hp)
    · rw [if_pos hs] at h
      exact reconciled_ok h

/-! ## The drafts there were -/

theorem takeDeleted_ok {ids : List String} {prior prior' : Table GraphDraft} (h : takeDeleted ids prior = .ok prior') :
    (∀ id ∈ ids, ∀ old, prior.get? id = some old → old.saved = false ∧ old.writePending = false) ∧
      ∀ k, k ∉ ids → prior'.get? k = prior.get? k := by
  induction ids generalizing prior with
  | nil =>
    cases h
    exact ⟨nofun, fun _ _ => rfl⟩
  | cons id rest ih =>
    unfold takeDeleted at h
    split at h
    · cases h
    · next hfree =>
      obtain ⟨hrest, hother⟩ := ih h
      have hfirst : ∀ old, prior.get? id = some old → old.saved = false ∧ old.writePending = false := by
        intro old hold
        rw [hold, Option.any_some, Bool.not_eq_true, Bool.or_eq_false_iff] at hfree
        exact hfree
      refine ⟨fun id' hid' old hold => ?_, fun k hk => ?_⟩
      · by_cases hsame : id' = id
        · exact hfirst old (hsame ▸ hold)
        · rcases List.mem_cons.mp hid' with heq | hin
          · exact absurd heq hsame
          · exact hrest id' hin old ((Table.get?_delete_ne prior hsame).trans hold)
      · rw [List.mem_cons, not_or] at hk
        rw [hother k hk.2, Table.get?_delete_ne prior hk.1]

theorem takeReplaced_ok {r : Request} {deleted : List String} {drafts : List GraphDraft} {prior prior' : Table GraphDraft}
    (h : takeReplaced r deleted drafts prior = .ok prior') :
    (∀ d ∈ drafts, graphDraftIdentity d ∉ deleted) ∧
      ∀ k old, prior.get? k = some old → prior'.get? k = some old ∨
        ∃ d ∈ drafts, graphDraftIdentity d = k ∧ replaceDraft r old d = .ok () := by
  induction drafts generalizing prior with
  | nil =>
    cases h
    exact ⟨nofun, fun _ _ hold => Or.inl hold⟩
  | cons d rest ih =>
    unfold takeReplaced at h
    by_cases hdel : deleted.contains (graphDraftIdentity d) = true
    · rw [if_pos hdel] at h
      cases h
    · rw [if_neg hdel] at h
      have hdel : graphDraftIdentity d ∉ deleted := by simpa using hdel
      have hmem : ∀ d' ∈ d :: rest, (∀ d' ∈ rest, graphDraftIdentity d' ∉ deleted) → graphDraftIdentity d' ∉ deleted := by
        intro d' hd' hrest
        rcases List.mem_cons.mp hd' with rfl | hd'
        · exact hdel
        · exact hrest d' hd'
      split at h
      · obtain ⟨hrest, hprior⟩ := ih h
        refine ⟨fun d' hd' => hmem d' hd' hrest, fun k old hold => ?_⟩
        rcases hprior k old hold with hleft | ⟨d', hd', hk, hrep⟩
        · exact Or.inl hleft
        · exact Or.inr ⟨d', List.mem_cons_of_mem _ hd', hk, hrep⟩
      · next replaced hreplaced =>
        cases hrep : replaceDraft r replaced d with
        | error why =>
          rw [hrep] at h
          cases h
        | ok u =>
          rw [hrep] at h
          obtain ⟨hrest, hprior⟩ := ih h
          refine ⟨fun d' hd' => hmem d' hd' hrest, fun k old hold => ?_⟩
          by_cases hk : k = graphDraftIdentity d
          · rw [hk, hreplaced] at hold
            cases hold
            exact Or.inr ⟨d, List.mem_cons_self, hk.symm, hrep⟩
          · rcases hprior k old ((Table.get?_delete_ne prior hk).trans hold) with hleft | ⟨d', hd', hk', hrep'⟩
            · exact Or.inl hleft
            · exact Or.inr ⟨d', List.mem_cons_of_mem _ hd', hk', hrep'⟩

theorem get?_priorDrafts {drafts : List GraphDraft} (hnodup : (drafts.map graphDraftIdentity).Nodup) {d : GraphDraft}
    (hd : d ∈ drafts) : (priorDrafts drafts).get? (graphDraftIdentity d) = some d := by
  have hother : ∀ (l : List GraphDraft) (t : Table GraphDraft) (k : String), k ∉ l.map graphDraftIdentity →
      (l.foldl (fun prior d => prior.set (graphDraftIdentity d) d) t).get? k = t.get? k := by
    intro l
    induction l with
    | nil => intro t k _; rfl
    | cons first rest ih =>
      intro t k hk
      rw [List.map_cons, List.mem_cons, not_or] at hk
      rw [List.foldl_cons, ih _ k hk.2, Table.get?_set_ne _ _ hk.1]
  have hin : ∀ (l : List GraphDraft) (t : Table GraphDraft), (l.map graphDraftIdentity).Nodup → d ∈ l →
      (l.foldl (fun prior d => prior.set (graphDraftIdentity d) d) t).get? (graphDraftIdentity d) = some d := by
    intro l
    induction l with
    | nil => intro t _ hd; cases hd
    | cons first rest ih =>
      intro t hn hd
      rw [List.map_cons, List.nodup_cons] at hn
      rw [List.foldl_cons]
      rcases List.mem_cons.mp hd with rfl | hd
      · rw [hother _ _ _ hn.1, Table.get?_set_self]
      · exact ih _ hn.2 hd
  exact hin drafts Table.empty hnodup hd

/-! ## What an admission admits -/

/-- What the drafts and the deletions of a record may become. -/
structure Retains (before after : GraphDraftDocument) : Prop where
  deleted : ∀ id ∈ before.deleted, id ∈ after.deleted
  kept : ∀ d ∈ before.drafts, (∃ d' ∈ after.drafts, Follows d d') ∨
    graphDraftIdentity d ∈ after.deleted ∧ d.saved = false ∧ d.writePending = false

theorem Retains.refl (doc : GraphDraftDocument) : Retains doc doc :=
  ⟨fun _ h => h, fun d hd => Or.inl ⟨d, hd, Follows.refl d⟩⟩

theorem Retains.trans {a b c : GraphDraftDocument} (h : Retains a b) (h' : Retains b c) : Retains a c := by
  refine ⟨fun id hid => h'.deleted id (h.deleted id hid), fun d hd => ?_⟩
  rcases h.kept d hd with ⟨d', hd', hf⟩ | ⟨hdel, hfree⟩
  · rcases h'.kept d' hd' with ⟨d'', hd'', hf'⟩ | ⟨hdel, hs, hp⟩
    · exact Or.inl ⟨d'', hd'', hf.trans hf'⟩
    · refine Or.inr ⟨hf.identity ▸ hdel, ?_, ?_⟩
      · -- had it been saved, it would be saved still
        cases hsaved : d.saved with
        | false => rfl
        | true =>
          rw [hf.saved hsaved, hsaved] at hs
          cases hs
      · cases hpending : d.writePending with
        | false => rfl
        | true =>
          rcases (hf.pending hpending).2 with hp' | hs'
          · rw [hp] at hp'; cases hp'
          · rw [hs] at hs'; cases hs'
  · exact Or.inr ⟨h'.deleted _ hdel, hfree⟩

/-- The spec of an admission. -/
theorem admitGraphDraftUpdate_ok {r : Request} {previous incoming : Text} (hbefore : WellFormed previous.document)
    (hafter : WellFormed incoming.document) (h : admitGraphDraftUpdate r previous incoming = .ok ()) :
    Retains previous.document incoming.document ∧
      ∀ d ∈ previous.document.drafts, d.writePending = true → ∀ d' ∈ incoming.document.drafts,
        graphDraftIdentity d' = graphDraftIdentity d → d'.saved = true → Exactly r d' := by
  unfold admitGraphDraftUpdate at h
  obtain ⟨prior, hdeleted, h⟩ := bind_eq_ok.mp h
  obtain ⟨prior', hreplaced, h⟩ := bind_eq_ok.mp h
  obtain ⟨hfree, hother⟩ := takeDeleted_ok hdeleted
  obtain ⟨-, htaken⟩ := takeReplaced_ok hreplaced
  by_cases hleft : 0 < prior'.size
  · rw [if_pos hleft] at h
    cases h
  rw [if_neg hleft] at h
  by_cases hkeep : ¬(previous.document.deleted.all incoming.document.deleted.contains) = true
  · rw [if_pos hkeep] at h
    cases h
  have hempty : ∀ k, prior'.get? k = none := Table.get?_of_size_zero (Nat.eq_zero_of_not_pos hleft)
  have hdel : ∀ id ∈ previous.document.deleted, id ∈ incoming.document.deleted := by
    intro id hid
    simpa using List.all_eq_true.mp (not_not.mp hkeep) id hid
  -- each draft there was is named in the deletions, or replaced
  have hkept : ∀ d ∈ previous.document.drafts,
      (∃ d' ∈ incoming.document.drafts, graphDraftIdentity d' = graphDraftIdentity d ∧ replaceDraft r d d' = .ok ()) ∨
        graphDraftIdentity d ∈ incoming.document.deleted ∧ d.saved = false ∧ d.writePending = false := by
    intro d hd
    have hprior := get?_priorDrafts hbefore.nodup hd
    by_cases hin : graphDraftIdentity d ∈ incoming.document.deleted
    · exact Or.inr ⟨hin, hfree _ hin d hprior⟩
    · rcases htaken _ d ((hother _ hin).trans hprior) with hstill | hrep
      · rw [hempty] at hstill
        cases hstill
      · exact Or.inl hrep
  refine ⟨⟨hdel, fun d hd => ?_⟩, fun d hd hpending d' hd' hid hsaved => ?_⟩
  · rcases hkept d hd with ⟨d', hd', hid, hrep⟩ | hgone
    · exact Or.inl ⟨d', hd', (replaceDraft_ok hid hrep).1⟩
    · exact Or.inr hgone
  · rcases hkept d hd with ⟨d'', hd'', hid'', hrep⟩ | ⟨_, _, hnot⟩
    · have hsame : d'' = d' := List.inj_on_of_nodup_map hafter.nodup hd'' hd' (hid''.trans hid.symm)
      subst hsame
      exact (replaceDraft_ok hid'' hrep).2 hpending hsaved
    · rw [hnot] at hpending
      cases hpending

/-! ## A retention -/

theorem draft_row_identity (d : GraphDraft) : graphDraftIdentity d.row.draft = graphDraftIdentity d := by
  rw [draft_row]
  rfl

/-- A draft that may become what its own row says is written as it is. -/
theorem eq_of_follows_row {d : GraphDraft} (h : Follows d d.row.draft) : d.row.draft = d := by
  have hsources : d.row.draft.policySources = d.policySources := h.policySources
  rw [draft_row] at hsources ⊢
  exact congrArg (fun sources => { d with policySources := sources }) hsources

/-- The spec of a retention: the drafts there were stay as they are, before the new ones. -/
theorem retainConversationGraphDrafts_ok {r : Request} {stored : Option Text} {documents : List (List Chat)} {saved text : Text}
    (hsaved : readGraphDrafts e stored = .ok saved) (hbefore : WellFormed saved.document)
    (h : retainConversationGraphDrafts e r stored documents = .ok (some text)) :
    validateGraphDrafts e text = true ∧ text.document.deleted = saved.document.deleted ∧
      saved.document.drafts <+: text.document.drafts := by
  unfold retainConversationGraphDrafts at h
  obtain ⟨saved', hread, h⟩ := bind_eq_ok.mp h
  rw [hsaved] at hread
  cases hread
  obtain ⟨⟨candidates, order⟩, hcollect, h⟩ := bind_eq_ok.mp h
  dsimp only at h
  by_cases hnone : (newCandidates saved.document candidates order).isEmpty = true
  · rw [if_pos hnone] at h
    cases h
  rw [if_neg hnone] at h
  obtain ⟨_, _, h⟩ := bind_eq_ok.mp h
  split at h
  · cases h
  split at h
  · cases h
  next hvalid =>
  obtain ⟨u, hadmit, h⟩ := bind_eq_ok.mp h
  cases h
  have hvalid := not_not.mp hvalid
  have hafter := wellFormed_of_valid hvalid
  have hretains := (admitGraphDraftUpdate_ok hbefore hafter hadmit).1
  have hdrafts : (GraphDraftDocument.text { saved.document with
      drafts := saved.document.drafts ++ newCandidates saved.document candidates order }).document.drafts =
      (saved.document.drafts ++ newCandidates saved.document candidates order).map fun d => d.row.draft := by
    unfold GraphDraftDocument.text
    exact List.map_map
  refine ⟨hvalid, rfl, ?_⟩
  rw [hdrafts, List.map_append]
  -- each draft there was follows itself, so that its row is all of it
  have hsame : saved.document.drafts.map (fun d => d.row.draft) = saved.document.drafts := by
    refine (List.map_congr_left fun d hd => ?_).trans (List.map_id _)
    have hd' : d.row.draft ∈ (GraphDraftDocument.text { saved.document with
        drafts := saved.document.drafts ++ newCandidates saved.document candidates order }).document.drafts := by
      rw [hdrafts]
      exact List.mem_map_of_mem (List.mem_append_left _ hd)
    rcases hretains.kept d hd with ⟨d', hin, hfollows⟩ | ⟨hdel, _⟩
    · have heq : d' = d.row.draft :=
        List.inj_on_of_nodup_map hafter.nodup hin hd' (hfollows.identity.trans (draft_row_identity d).symm)
      rw [heq] at hfollows
      exact eq_of_follows_row hfollows
    · exact absurd hdel (hbefore.apart d hd)
  rw [hsame]
  exact List.prefix_append _ _

/-! ## Steps -/

/-- What is stored is absent or was accepted. -/
def Accepted (e : Tools) (stored : Option Text) : Prop := ∀ text, stored = some text → validateGraphDrafts e text = true

theorem Accepted.wellFormed {stored : Option Text} (h : Accepted e stored) : WellFormed (documentOf stored) := by
  cases stored with
  | none => exact ⟨List.nodup_nil, nofun, nofun⟩
  | some text => exact wellFormed_of_valid (h text rfl)

theorem readGraphDrafts_document {stored : Option Text} {saved : Text} (h : readGraphDrafts e stored = .ok saved) :
    saved.document = documentOf stored := by
  unfold readGraphDrafts at h
  cases stored with
  | none =>
    cases h
    rfl
  | some text =>
    dsimp only at h
    split at h
    · cases h
      rfl
    · cases h

/-- The spec of an update. -/
theorem handleGraphDrafts_ok {r : Request} {stored : Option Text} {incoming text : Text} (hstored : Accepted e stored)
    (h : handleGraphDrafts e r stored incoming = .ok text) :
    text = incoming ∧ validateGraphDrafts e incoming = true ∧ Retains (documentOf stored) incoming.document ∧
      ∀ d ∈ (documentOf stored).drafts, d.writePending = true → ∀ d' ∈ incoming.document.drafts,
        graphDraftIdentity d' = graphDraftIdentity d → d'.saved = true → Exactly r d' := by
  unfold handleGraphDrafts at h
  by_cases hvalid : ¬validateGraphDrafts e incoming = true
  · rw [if_pos hvalid] at h
    cases h
  rw [if_neg hvalid] at h
  obtain ⟨previous, hread, h⟩ := bind_eq_ok.mp h
  obtain ⟨_, _, h⟩ := bind_eq_ok.mp h
  split at h
  · cases h
  obtain ⟨u, hadmit, h⟩ := bind_eq_ok.mp h
  cases h
  have hdoc := readGraphDrafts_document hread
  have hbefore : WellFormed previous.document := hdoc ▸ hstored.wellFormed
  have hadmitted := admitGraphDraftUpdate_ok hbefore (wellFormed_of_valid (not_not.mp hvalid)) hadmit
  rw [hdoc] at hadmitted
  exact ⟨rfl, not_not.mp hvalid, hadmitted⟩

theorem accepted_none : Accepted e none := nofun

/-- What a step does to the record. -/
theorem step_cases {stored : Option Text} (hstored : Accepted e stored) (a : Act) :
    step e stored a = stored ∨ ∃ text, step e stored a = some text ∧ validateGraphDrafts e text = true ∧
      Retains (documentOf stored) text.document ∧
      (∀ d ∈ (documentOf stored).drafts, d.writePending = true → ∀ d' ∈ text.document.drafts,
        graphDraftIdentity d' = graphDraftIdentity d → d'.saved = true → Exactly a.request d') ∧
      ∀ r documents, a = .retain r documents →
        text.document.deleted = (documentOf stored).deleted ∧ (documentOf stored).drafts <+: text.document.drafts := by
  cases a with
  | update r incoming =>
    simp only [step]
    cases h : handleGraphDrafts e r stored incoming with
    | error why => exact Or.inl rfl
    | ok text =>
      obtain ⟨rfl, hvalid, hretains, hexactly⟩ := handleGraphDrafts_ok hstored h
      exact Or.inr ⟨text, rfl, hvalid, hretains, hexactly, nofun⟩
  | retain r documents =>
    simp only [step]
    cases h : retainConversationGraphDrafts e r stored documents with
    | error why => exact Or.inl rfl
    | ok next =>
      cases next with
      | none => exact Or.inl rfl
      | some text =>
        obtain ⟨saved, hread, _⟩ := bind_eq_ok.mp h
        have hdoc := readGraphDrafts_document hread
        have hbefore : WellFormed saved.document := hdoc ▸ hstored.wellFormed
        obtain ⟨hvalid, hdeleted, hstart⟩ := retainConversationGraphDrafts_ok hread hbefore h
        rw [hdoc] at hbefore hdeleted hstart
        refine Or.inr ⟨text, rfl, hvalid, ⟨fun id hid => ?_, fun d hd => ?_⟩, fun d hd hpending d' hd' hid hsaved => ?_, ?_⟩
        · rw [hdeleted]
          exact hid
        · exact Or.inl ⟨d, hstart.subset hd, Follows.refl d⟩
        · -- the draft pending stays, and is no saved one
          have hafter := wellFormed_of_valid hvalid
          have hsame : d' = d := List.inj_on_of_nodup_map hafter.nodup hd' (hstart.subset hd) hid
          have hboth := hbefore.valid d hd
          rw [← hsame] at hboth hpending
          simp [GraphDraft.valid, hsaved, hpending] at hboth
        · rintro _ _ ⟨⟩
          exact ⟨hdeleted, hstart⟩

theorem accepted_step {stored : Option Text} (hstored : Accepted e stored) (a : Act) : Accepted e (step e stored a) := by
  rcases step_cases hstored a with h | ⟨text, h, hvalid, _⟩
  · rw [h]
    exact hstored
  · rw [h]
    rintro _ ⟨⟩
    exact hvalid

theorem retains_step {stored : Option Text} (hstored : Accepted e stored) (a : Act) :
    Retains (documentOf stored) (documentOf (step e stored a)) := by
  rcases step_cases hstored a with h | ⟨text, h, _, hretains, _⟩
  · rw [h]
    exact Retains.refl _
  · rw [h]
    exact hretains

/-- Of a run from the empty record and any run after it: an identity deleted stays deleted and is no draft's
again; a draft there was is there, or was deleted, and is not where it was saved or its write pending; what it
became kept its origin, its creation and its Policy sources, all of it once saved, and its candidate while its
write is pending. It is marked saved from there by a step that finds the project to have exactly it. No identity
is both there and deleted. A retention keeps the drafts and the deletions there are. -/
theorem graph_drafts_keep_history (e : Tools) (as bs : List Act) (a : Act) :
    let before := documentOf (run (step e) none as)
    let after := documentOf (run (step e) (run (step e) none as) bs)
    let next := documentOf (step e (run (step e) none as) a)
    (∀ id ∈ before.deleted, id ∈ after.deleted ∧ ∀ d ∈ after.drafts, graphDraftIdentity d ≠ id) ∧
    (∀ d ∈ before.drafts, (∃ d' ∈ after.drafts, Follows d d') ∨
      graphDraftIdentity d ∈ after.deleted ∧ d.saved = false ∧ d.writePending = false) ∧
    (∀ d ∈ before.drafts, ∀ d' ∈ after.drafts, graphDraftIdentity d' = graphDraftIdentity d → Follows d d') ∧
    (∀ d ∈ before.drafts, d.writePending = true → ∀ d' ∈ next.drafts, graphDraftIdentity d' = graphDraftIdentity d →
      d'.saved = true → d'.candidate = d.candidate ∧ Exactly a.request d') ∧
    (before.drafts.map graphDraftIdentity).Nodup ∧ (∀ d ∈ before.drafts, graphDraftIdentity d ∉ before.deleted) ∧
    ∀ r documents, a = .retain r documents → next.deleted = before.deleted ∧ before.drafts <+: next.drafts := by
  intro before after next
  have hbefore : Accepted e (run (step e) none as) := run_invariant (P := Accepted e) (fun _ a h => accepted_step h a) accepted_none as
  have hafter : Accepted e (run (step e) (run (step e) none as) bs) :=
    run_invariant (P := Accepted e) (fun _ a h => accepted_step h a) hbefore bs
  have hretains : Retains before after :=
    run_related (R := fun s t => Retains (documentOf s) (documentOf t)) (fun _ a h => accepted_step h a)
      (fun _ a h => retains_step h a) (fun s => Retains.refl _) (fun s t u => Retains.trans) hbefore bs
  have hfollows : ∀ {doc doc' : GraphDraftDocument}, Retains doc doc' → WellFormed doc' → ∀ d ∈ doc.drafts, ∀ d' ∈ doc'.drafts,
      graphDraftIdentity d' = graphDraftIdentity d → Follows d d' := by
    intro doc doc' hr hwf d hd d' hd' hid
    rcases hr.kept d hd with ⟨d'', hd'', hf⟩ | ⟨hdel, _⟩
    · have hsame := List.inj_on_of_nodup_map hwf.nodup hd'' hd' (hf.identity.trans hid.symm)
      exact hsame ▸ hf
    · exact absurd (hid ▸ hdel) (hwf.apart d' hd')
  refine ⟨fun id hid => ⟨hretains.deleted id hid, fun d hd heq => ?_⟩, hretains.kept, hfollows hretains hafter.wellFormed,
    fun d hd hpending d' hd' hid hsaved => ?_, hbefore.wellFormed.nodup, hbefore.wellFormed.apart, fun r documents ha => ?_⟩
  · exact hafter.wellFormed.apart d hd (heq ▸ hretains.deleted id hid)
  · have hf := hfollows (retains_step hbefore a) (accepted_step hbefore a).wellFormed d hd d' hd' hid
    refine ⟨(hf.pending hpending).1, ?_⟩
    rcases step_cases hbefore a with h | ⟨text, h, _, _, hexactly, _⟩
    · -- nothing was taken, and a pending draft is no saved one
      have hsame : next = before := congrArg documentOf h
      have hin : d' ∈ before.drafts := hsame ▸ hd'
      have hsame : d' = d := List.inj_on_of_nodup_map hbefore.wellFormed.nodup hin hd hid
      have hboth := hbefore.wellFormed.valid d hd
      rw [← hsame] at hboth hpending
      simp [GraphDraft.valid, hsaved, hpending] at hboth
    · have hin : d' ∈ text.document.drafts := by
        have : next = text.document := congrArg documentOf h
        exact this ▸ hd'
      exact hexactly d hd hpending d' hin hid hsaved
  · rcases step_cases hbefore a with h | ⟨text, h, _, _, _, hretain⟩
    · have hsame : next = before := congrArg documentOf h
      rw [hsame]
      exact ⟨rfl, List.prefix_refl _⟩
    · have hnext : next = text.document := congrArg documentOf h
      rw [hnext]
      exact hretain r documents ha

end GraphDrafts

end Desk
