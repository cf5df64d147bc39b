import Desk.Lib.Merge
import Desk.Suites.Proposals

/-!
# A proposed case is saved once

A save puts the selected cases into the suite at once, over the cases the
proposal was made against. What a proposal saved is recorded with the first
proposal of its id, and nothing that happens to the suite takes it away.
-/

namespace Desk

namespace Suites

open Identity (SameJson same_of_jsonIdentity)

section
variable {ν : Type} {N : Numbers ν}

/-! ## Suites -/

/-- What storage holds. -/
structure TestSuite.Valid (suite : TestSuite ν) : Prop where
  distinct : (suite.cases.map TestCase.id).Nodup
  room : suite.cases.length ≤ 256

def TestSuite.caseOf (suite : TestSuite ν) (id : Units) : Option (TestCase ν) := suite.cases.find? fun c => c.id == id

theorem revised_id (test : TestCase ν) (current : Option (TestCase ν)) : (test.revised current).id = test.id := rfl

theorem caseOf_eq_some {suite : TestSuite ν} (hs : suite.Valid) {current : TestCase ν} (h : current ∈ suite.cases) :
    suite.caseOf current.id = some current := by
  cases hfind : suite.caseOf current.id with
  | none =>
    have hne := List.find?_eq_none.mp hfind current h
    exact absurd (beq_self_eq_true current.id) hne
  | some c =>
    have hid : c.id = current.id := beq_iff_eq.mp (List.find?_some hfind :)
    exact congrArg some (key_inj hs.distinct (List.mem_of_find?_eq_some hfind) h hid)

theorem caseOf_eq_none {suite : TestSuite ν} {id : Units} : suite.caseOf id = none ↔ ∀ c ∈ suite.cases, c.id ≠ id := by
  simp [TestSuite.caseOf, List.find?_eq_none]

/-! ## The loop of a save -/

theorem saveEach_cons {record : TestProposal ν} {test : TestCase ν} {rest next : List (TestCase ν)}
    {savedCases : List (Units × Units)} {r : List (TestCase ν) × List (Units × Units)} :
    saveEach N record (test :: rest) next savedCases = .ok r ↔
      test.id ∉ savedCases.map Prod.fst ∧
      (next.find? fun c => c.id == test.id).map (TestCase.identity N) = record.caseSnapshots.lookup test.id ∧
      saveEach N record rest (upsert TestCase.id TestCase.revised next test)
        (savedCases ++ [(test.id, (test.revised (next.find? fun c => c.id == test.id)).identity N)]) = .ok r := by
  rw [saveEach, refuseWhen_bind_eq_ok]
  simp only [findIdx?_bind]
  rw [refuseWhen_bind_eq_ok, not_not]
  have hfind := findIdx?_bind (fun c : TestCase ν => c.id == test.id) next
  unfold upsert
  generalize (next.find? fun c => c.id == test.id) = found at hfind ⊢
  subst hfind
  cases next.findIdx? fun c => c.id == test.id <;> exact Iff.rfl

/-- The loop reads the cases that were there before it: the selected cases are distinct. -/
theorem saveEach_ok {record : TestProposal ν} {tests next next' : List (TestCase ν)} {savedCases savedCases' : List (Units × Units)}
    (h : saveEach N record tests next savedCases = .ok (next', savedCases')) (hn : (tests.map TestCase.id).Nodup) :
    next' = tests.foldl (upsert TestCase.id TestCase.revised) next ∧
    (∀ t ∈ tests, t.id ∉ savedCases.map Prod.fst) ∧
    (∀ t ∈ tests, (next.find? fun c => c.id == t.id).map (TestCase.identity N) = record.caseSnapshots.lookup t.id) ∧
    savedCases' = savedCases ++
      tests.map fun t => (t.id, (t.revised (next.find? fun c => c.id == t.id)).identity N) := by
  induction tests generalizing next savedCases with
  | nil =>
    obtain ⟨rfl, rfl⟩ := Prod.mk.inj (Except.ok.inj h)
    exact ⟨rfl, nofun, nofun, (List.append_nil _).symm⟩
  | cons test rest ih =>
    obtain ⟨hfresh, hcurrent, h⟩ := saveEach_cons.mp h
    rw [List.map_cons, List.nodup_cons] at hn
    obtain ⟨hnext, hrest, hcurrents, hsaved⟩ := ih h hn.2
    have hfind : ∀ t ∈ rest, (upsert TestCase.id TestCase.revised next test).find? (fun c => c.id == t.id) =
        next.find? fun c => c.id == t.id := fun t ht =>
      find?_upsert_ne revised_id (fun e => hn.1 (e ▸ List.mem_map_of_mem ht)) next
    refine ⟨hnext, ?_, ?_, ?_⟩
    · intro t ht
      obtain rfl | ht := List.mem_cons.mp ht
      · exact hfresh
      · intro hmem
        refine hrest t ht ?_
        rw [List.map_append]
        exact List.mem_append_left _ hmem
    · intro t ht
      obtain rfl | ht := List.mem_cons.mp ht
      · exact hcurrent
      · rw [← hfind t ht]
        exact hcurrents t ht
    · have htail : rest.map (fun t => (t.id, (t.revised ((upsert TestCase.id TestCase.revised next test).find?
          fun c => c.id == t.id)).identity N)) =
          rest.map fun t => (t.id, (t.revised (next.find? fun c => c.id == t.id)).identity N) :=
        List.map_congr_left fun t ht => by rw [hfind t ht]
      rw [hsaved, htail, List.append_assoc, List.map_cons, List.singleton_append]

/-! ## A save -/

theorem not_mem_of_additionFindings {cases : List (TestCase ν)} {existing : List Units}
    (h : additionFindings (.obj [(wordText "cases", .arr (cases.map fun c => .obj c.row))]) existing = [])
    {c : TestCase ν} (hc : c ∈ cases) : c.id ∉ existing := by
  intro hmem
  have hmember : memberOf (some (.obj [(wordText "cases", .arr (cases.map fun c => .obj c.row))])) (wordText "cases") =
      some (Value.arr (cases.map fun c => .obj c.row)) := by
    simp [memberOf, member]
  rw [additionFindings, hmember] at h
  obtain ⟨i, hi⟩ := List.mem_iff_getElem?.mp (List.mem_map_of_mem (f := fun c => Value.obj c.row) hc)
  have hnil := List.flatMap_eq_nil_iff.mp h _ (List.mk_mem_zipIdx_iff_getElem?.mpr hi)
  simp only [memberOf, c.row_id, if_pos hmem, reduceCtorEq] at hnil

/-- What a successful save does: `record` is the recorded proposal. -/
structure Saved (N : Numbers ν) (suite suite' : TestSuite ν) (record : TestProposal ν) (cases : List (TestCase ν)) : Prop where
  selected : cases ≠ [] ∧ (cases.map TestCase.id).Nodup
  proposed : ∃ proposed, proposalCases N record = .ok proposed ∧ ∀ c ∈ cases, c.id ∈ proposed.map TestCase.id
  fresh : ∀ c ∈ cases, c.id ∉ record.saved.map Prod.fst
  /-- A case is replaced only where it is the one of the snapshot. -/
  replaced : ∀ c ∈ cases, ∀ current ∈ suite.cases, current.id = c.id →
    record.caseSnapshots.lookup c.id = some (current.identity N) ∧
    ∀ made : TestCase ν, record.caseSnapshots.lookup c.id = some (made.identity N) →
      SameJson N (current.value N) (made.value N)
  /-- A case is added only where the snapshot had none. -/
  added : ∀ c ∈ cases, (∀ current ∈ suite.cases, current.id ≠ c.id) → record.caseSnapshots.lookup c.id = none
  additions : record.additionsOnly = true → ∀ c ∈ cases, ∀ current ∈ suite.cases, current.id ≠ c.id
  cases_eq : suite'.cases = merge TestCase.id TestCase.revised suite.cases cases
  deleted_eq : suite'.deleted = suite.deleted.map fun ids => ids.filter fun id => !cases.any fun c => c.id == id
  proposals_eq : suite'.proposals = suite.proposals.map fun ps => ps.map fun p =>
    if p.id = record.id then
      { p with savedCases := some (record.saved ++
          cases.map fun c => (c.id, (c.revised (suite.caseOf c.id)).identity N)) }
    else p
  rest_eq : suite'.rest = suite.rest

theorem saveReviewedCases_ok {suite suite' : TestSuite ν} {proposal : TestProposal ν} {cases : List (TestCase ν)} {digest : Units}
    (hs : suite.Valid) (h : saveReviewedCases N suite proposal cases digest = .ok suite') :
    ∃ record, suite.proposal proposal.id = some record ∧ Saved N suite suite' record cases ∧ suite'.Valid := by
  obtain ⟨-, h⟩ := refuseWhen_bind_eq_ok.mp h
  obtain ⟨record, hrecord, h⟩ := bind_eq_ok.mp h
  obtain ⟨-, h⟩ := refuseWhen_bind_eq_ok.mp h
  obtain ⟨hadd, h⟩ := refuseWhen_bind_eq_ok.mp h
  obtain ⟨proposed, hproposed, h⟩ := bind_eq_ok.mp h
  obtain ⟨hselected, h⟩ := refuseWhen_bind_eq_ok.mp h
  obtain ⟨⟨next, savedCases⟩, heach, h⟩ := bind_eq_ok.mp h
  obtain ⟨hroom, h⟩ := refuseWhen_bind_eq_ok.mp h
  obtain rfl := Except.ok.inj h
  simp only [not_or, not_not, not_exists, not_and] at hselected
  obtain ⟨hne, hdistinct, hids⟩ := hselected
  obtain ⟨hnext, hfresh, hcurrent, hsaved⟩ := saveEach_ok heach hdistinct
  refine ⟨record, orRefuse_eq_ok.mp hrecord, ?_, ?_⟩
  · constructor
    · exact ⟨hne, hdistinct⟩
    · exact ⟨proposed, hproposed, hids⟩
    · exact hfresh
    · intro c hc current hmem hid
      have hsnapshot : record.caseSnapshots.lookup c.id = some (current.identity N) := by
        have hfind : suite.cases.find? (fun x => x.id == c.id) = some current := hid ▸ caseOf_eq_some hs hmem
        rw [← hcurrent c hc, hfind]
        rfl
      refine ⟨hsnapshot, fun made hmade => ?_⟩
      exact same_of_jsonIdentity (Option.some.inj (hsnapshot.symm.trans hmade))
    · intro c hc hnone
      have hfind : suite.cases.find? (fun x => x.id == c.id) = none := caseOf_eq_none.mpr hnone
      rw [← hcurrent c hc, hfind]
      rfl
    · intro hadditions c hc current hmem hid
      have hnil := not_not.mp fun hne => hadd ⟨hadditions, hne⟩
      refine not_mem_of_additionFindings hnil hc (List.mem_append_right _ ?_)
      exact List.mem_map.mpr ⟨current, hmem, hid⟩
    · rw [← foldl_upsert revised_id hs.distinct hdistinct]
      exact hnext
    · rfl
    · subst hsaved
      rfl
    · rfl
  · constructor
    · rw [show _ = next from rfl, hnext]
      exact nodup_foldl_upsert revised_id hs.distinct cases
    · exact Nat.le_of_not_lt hroom

/-! ## What else changes a suite -/

theorem importRow_ok {origin : Origin} {ids : List Units} {index : Nat} {raw : Value ν} {c : TestCase ν}
    (h : importRow origin ids index raw = .ok c) : c.id ∉ ids := by
  unfold importRow at h
  split at h
  · split at h
    · obtain ⟨-, h⟩ := refuseWhen_bind_eq_ok.mp h
      obtain ⟨hnew, h⟩ := refuseWhen_bind_eq_ok.mp h
      obtain ⟨-, h⟩ := refuseWhen_bind_eq_ok.mp h
      obtain ⟨-, h⟩ := refuseWhen_bind_eq_ok.mp h
      obtain ⟨-, h⟩ := refuseWhen_bind_eq_ok.mp h
      obtain ⟨-, h⟩ := refuseWhen_bind_eq_ok.mp h
      obtain rfl := Except.ok.inj h
      exact hnew
    · cases h
  · cases h

theorem importRows_ok {origin : Origin} {raws : List (Value ν)} {ids : List Units} {index : Nat} {rows : List (TestCase ν)}
    (h : importRows origin ids index raws = .ok rows) :
    (rows.map TestCase.id).Nodup ∧ ∀ c ∈ rows, c.id ∉ ids := by
  induction raws generalizing ids index rows with
  | nil =>
    obtain rfl := Except.ok.inj h
    exact ⟨List.nodup_nil, nofun⟩
  | cons raw rest ih =>
    obtain ⟨c, hc, h⟩ := bind_eq_ok.mp h
    obtain ⟨others, hothers, h⟩ := bind_eq_ok.mp h
    obtain rfl := Except.ok.inj h
    obtain ⟨hn, hnew⟩ := ih hothers
    refine ⟨?_, ?_⟩
    · rw [List.map_cons, List.nodup_cons]
      refine ⟨fun hmem => ?_, hn⟩
      obtain ⟨c', hc', hid⟩ := List.mem_map.mp hmem
      exact hnew c' hc' (List.mem_append_right _ (List.mem_singleton.mpr hid))
    · intro c' hc'
      obtain rfl | hc' := List.mem_cons.mp hc'
      · exact importRow_ok hc
      · exact fun hmem => hnew c' hc' (List.mem_append_left _ hmem)

theorem importMatrix_ok {value : Option (Value ν)} {origin : Origin} {rows : List (TestCase ν)}
    (h : importMatrix N value origin = .ok rows) : (rows.map TestCase.id).Nodup := by
  unfold importMatrix at h
  split at h
  · obtain ⟨-, h⟩ := refuseWhen_bind_eq_ok.mp h
    obtain ⟨-, h⟩ := refuseWhen_bind_eq_ok.mp h
    exact (importRows_ok h).1
  · cases h

/-- An edit keeps the ids that are there, and an added case has a new one. -/
theorem storeCase_ok {suite suite' : TestSuite ν} {held : TestCase ν} (hs : suite.Valid)
    (h : storeCase suite held = .ok suite') : suite'.Valid ∧ suite'.proposals = suite.proposals := by
  obtain ⟨-, h⟩ := refuseWhen_bind_eq_ok.mp h
  obtain ⟨hroom, h⟩ := refuseWhen_bind_eq_ok.mp h
  obtain rfl := Except.ok.inj h
  refine ⟨?_, rfl⟩
  cases hfind : suite.cases.find? fun c => c.id == held.id with
  | some current =>
    have hids : (suite.cases.map fun c => if c.id = held.id then { held with revision := held.revision + 1 } else c).map
        TestCase.id = suite.cases.map TestCase.id := by
      rw [List.map_map]
      apply List.map_congr_left
      intro c _
      by_cases hc : c.id = held.id
      · rw [Function.comp_apply, if_pos hc]
        exact hc.symm
      · rw [Function.comp_apply, if_neg hc]
    constructor
    · simp only [Option.isSome_some, if_true]
      rw [hids]
      exact hs.distinct
    · simp only [Option.isSome_some, if_true, List.length_map]
      exact hs.room
  | none =>
    rw [hfind] at hroom
    have hnew : held.id ∉ suite.cases.map TestCase.id := fun hmem => by
      obtain ⟨c, hc, hid⟩ := List.mem_map.mp hmem
      exact List.find?_eq_none.mp hfind c hc (beq_iff_eq.mpr hid)
    have hlength : suite.cases.length < 256 := Nat.lt_of_not_le fun hle => hroom ⟨rfl, hle⟩
    constructor
    · simp only [Option.isSome_none, Bool.false_eq_true, if_false, List.map_append]
      exact nodup_append_singleton.mpr ⟨hs.distinct, hnew⟩
    · simp only [Option.isSome_none, Bool.false_eq_true, if_false, List.length_append, List.length_singleton]
      exact hlength

theorem saveCase_ok {suite suite' : TestSuite ν} {held : TestCase ν} (hs : suite.Valid)
    (h : saveCase N suite held = .ok suite') : suite'.Valid ∧ suite'.proposals = suite.proposals := by
  unfold saveCase at h
  split at h
  · obtain ⟨_, _, h⟩ := bind_eq_ok.mp h
    exact storeCase_ok hs h
  · exact storeCase_ok hs h

theorem removeCase_ok {suite suite' : TestSuite ν} {selected : TestCase ν} (hs : suite.Valid)
    (h : removeCase N suite selected = .ok suite') : suite'.Valid ∧ suite'.proposals = suite.proposals := by
  obtain ⟨-, h⟩ := refuseWhen_bind_eq_ok.mp h
  obtain rfl := Except.ok.inj h
  refine ⟨⟨?_, ?_⟩, rfl⟩
  · exact (List.filter_sublist.map TestCase.id).nodup hs.distinct
  · exact (List.length_filter_le _ _).trans hs.room

theorem importCases_ok {suite suite' : TestSuite ν} {document : Value ν} (hs : suite.Valid)
    (h : importCases N suite document = .ok suite') : suite'.Valid ∧ suite'.proposals = suite.proposals := by
  obtain ⟨rows, hrows, h⟩ := bind_eq_ok.mp h
  obtain ⟨hnew, h⟩ := refuseWhen_bind_eq_ok.mp h
  obtain ⟨hroom, h⟩ := refuseWhen_bind_eq_ok.mp h
  obtain rfl := Except.ok.inj h
  refine ⟨⟨?_, ?_⟩, rfl⟩
  · rw [List.map_append, List.nodup_append]
    refine ⟨hs.distinct, importMatrix_ok hrows, ?_⟩
    rintro id hid _ hid' rfl
    obtain ⟨c, hc, rfl⟩ := List.mem_map.mp hid'
    exact hnew ⟨c, hc, hid⟩
  · rw [List.length_append]
    exact Nat.le_of_not_lt hroom

/-! ## Runs -/

/-- The suite says that the case of the proposal was saved. -/
def TestSuite.Recorded (suite : TestSuite ν) (saved : Units × Units) : Prop :=
  ∃ record, suite.proposal saved.1 = some record ∧ saved.2 ∈ record.saved.map Prod.fst

/-- Proposals that keep their ids are found where they were. -/
theorem proposal_map {suite suite' : TestSuite ν} {f : TestProposal ν → TestProposal ν} (hf : ∀ p, (f p).id = p.id)
    (h : suite'.proposals = suite.proposals.map fun ps => ps.map f) (id : Units) :
    suite'.proposal id = (suite.proposal id).map f := by
  have hid : ((fun p : TestProposal ν => p.id == id) ∘ f) = fun p => p.id == id := by
    funext p
    rw [Function.comp_apply, hf]
  unfold TestSuite.proposal
  rw [h]
  cases suite.proposals with
  | none => rfl
  | some ps =>
    show (ps.map f).find? _ = _
    rw [List.find?_map, hid]
    rfl

theorem proposal_id {suite : TestSuite ν} {id : Units} {record : TestProposal ν} (h : suite.proposal id = some record) :
    record.id = id := beq_iff_eq.mp (List.find?_some h :)

section
variable {suite suite' : TestSuite ν} {record : TestProposal ν} {cases : List (TestCase ν)}

/-- The record says which cases were saved now, and what it said before. -/
theorem Saved.proposal_eq (h : Saved N suite suite' record cases) (hrecord : suite.proposal record.id = some record) :
    ∃ record', suite'.proposal record.id = some record' ∧
      record'.saved.map Prod.fst = record.saved.map Prod.fst ++ cases.map TestCase.id := by
  refine ⟨_, (proposal_map (fun p => ?_) h.proposals_eq record.id).trans (congrArg _ hrecord), ?_⟩
  · split <;> rfl
  · simp [TestProposal.saved, Function.comp_def]

theorem Saved.recorded (h : Saved N suite suite' record cases) (hrecord : suite.proposal record.id = some record)
    {saved : Units × Units} (hsaved : suite.Recorded saved) : suite'.Recorded saved := by
  obtain ⟨held, hheld, hmem⟩ := hsaved
  by_cases hid : saved.1 = record.id
  · obtain rfl : record = held := by
      rw [hid, hrecord] at hheld
      exact Option.some.inj hheld
    obtain ⟨record', hrecord', hkeys⟩ := h.proposal_eq hrecord
    refine ⟨record', hid ▸ hrecord', ?_⟩
    rw [hkeys]
    exact List.mem_append_left _ hmem
  · refine ⟨held, (proposal_map (fun p => ?_) h.proposals_eq saved.1).trans ?_, hmem⟩
    · split <;> rfl
    · rw [hheld, Option.map_some, if_neg (proposal_id hheld ▸ hid)]

end

/-- Every change keeps a valid suite valid and forgets nothing that was saved. -/
theorem apply_ok {suite suite' : TestSuite ν} (hs : suite.Valid) {act : Act ν} (h : act.apply N suite = .ok suite') :
    suite'.Valid ∧ ∀ saved, suite.Recorded saved → suite'.Recorded saved := by
  have hsame : suite'.proposals = suite.proposals → ∀ saved, suite.Recorded saved → suite'.Recorded saved := by
    rintro heq saved ⟨record, hrecord, hmem⟩
    refine ⟨record, ?_, hmem⟩
    unfold TestSuite.proposal
    rw [heq]
    exact hrecord
  cases act with
  | review proposal cases digest =>
    obtain ⟨record, hrecord, hsaved, hvalid⟩ := saveReviewedCases_ok hs h
    exact ⟨hvalid, fun saved => hsaved.recorded (proposal_id hrecord ▸ hrecord)⟩
  | edit held =>
    obtain ⟨hvalid, heq⟩ := saveCase_ok hs h
    exact ⟨hvalid, hsame heq⟩
  | remove selected =>
    obtain ⟨hvalid, heq⟩ := removeCase_ok hs h
    exact ⟨hvalid, hsame heq⟩
  | import_ document =>
    obtain ⟨hvalid, heq⟩ := importCases_ok hs h
    exact ⟨hvalid, hsame heq⟩
  | propose proposal expected =>
    obtain ⟨-, h⟩ := refuseWhen_bind_eq_ok.mp h
    obtain rfl := Except.ok.inj h
    refine ⟨⟨hs.distinct, hs.room⟩, ?_⟩
    rintro saved ⟨record, hrecord, hmem⟩
    refine ⟨record, ?_, hmem⟩
    -- the proposal stands after those that are there
    unfold TestSuite.proposal at hrecord ⊢
    rw [Option.getD_some, List.find?_append, hrecord]
    rfl

theorem update_valid {suite : TestSuite ν} (hs : suite.Valid) (act : Act ν) : (update N suite act).Valid := by
  unfold update
  cases h : act.apply N suite with
  | error why => exact hs
  | ok suite' => exact (apply_ok hs h).1

theorem update_recorded {suite : TestSuite ν} (hs : suite.Valid) (act : Act ν) {saved : Units × Units}
    (h : suite.Recorded saved) : (update N suite act).Recorded saved := by
  unfold update
  cases happly : act.apply N suite with
  | error why => exact h
  | ok suite' => exact (apply_ok hs happly).2 saved h

/-- What a change saves was not saved before and is recorded now. -/
theorem saves_spec {suite : TestSuite ν} (hs : suite.Valid) (act : Act ν) :
    (act.saves N suite).Nodup ∧
      ∀ saved ∈ act.saves N suite, ¬ suite.Recorded saved ∧ (update N suite act).Recorded saved := by
  cases act with
  | review proposal cases digest =>
    cases h : saveReviewedCases N suite proposal cases digest with
    | error why =>
      have hnil : Act.saves N suite (.review proposal cases digest) = [] := by simp only [Act.saves, Act.apply, h]
      rw [hnil]
      exact ⟨List.nodup_nil, nofun⟩
    | ok suite' =>
      have hsaves : Act.saves N suite (.review proposal cases digest) = cases.map fun c => (proposal.id, c.id) := by
        simp only [Act.saves, Act.apply, h]
      have hnext : update N suite (.review proposal cases digest) = suite' := by simp only [update, Act.apply, h]
      obtain ⟨record, hrecord, hsaved, -⟩ := saveReviewedCases_ok hs h
      have hid := proposal_id hrecord
      rw [hsaves, hnext]
      refine ⟨?_, ?_⟩
      · refine List.Nodup.of_map Prod.snd ?_
        rw [List.map_map]
        exact hsaved.selected.2
      · intro saved hmem
        obtain ⟨c, hc, rfl⟩ := List.mem_map.mp hmem
        refine ⟨?_, ?_⟩
        · rintro ⟨record', hrecord', hmem'⟩
          obtain rfl : record = record' := Option.some.inj (hrecord.symm.trans hrecord')
          exact hsaved.fresh c hc hmem'
        · obtain ⟨record', hrecord', hkeys⟩ := hsaved.proposal_eq (hid ▸ hrecord)
          refine ⟨record', hid ▸ hrecord', ?_⟩
          rw [hkeys]
          exact List.mem_append_right _ (List.mem_map_of_mem hc)
  | _ => exact ⟨List.nodup_nil, nofun⟩

/-- Over a run nothing is saved twice, and nothing that was saved before it. -/
theorem savesOf_nodup {suite : TestSuite ν} (hs : suite.Valid) (acts : List (Act ν)) :
    (savesOf N suite acts).Nodup ∧ ∀ saved ∈ savesOf N suite acts, ¬ suite.Recorded saved := by
  induction acts generalizing suite with
  | nil => exact ⟨List.nodup_nil, nofun⟩
  | cons act rest ih =>
    obtain ⟨hnow, hspec⟩ := saves_spec hs act
    obtain ⟨hlater, hnew⟩ := ih (update_valid hs act)
    refine ⟨List.nodup_append.mpr ⟨hnow, hlater, ?_⟩, ?_⟩
    · rintro saved hsaved _ hsaved' rfl
      exact hnew saved hsaved' (hspec saved hsaved).2
    · intro saved hmem
      obtain hmem | hmem := List.mem_append.mp hmem
      · exact (hspec saved hmem).1
      · exact fun h => hnew saved hmem (update_recorded hs act h)

/-- Whatever happens to a suite, a case of a proposal is saved from it at most once, and only where the
case is still the one the proposal was made against. -/
theorem proposed_case_saved_once (N : Numbers ν) (suite : TestSuite ν) (hs : suite.Valid) (acts : List (Act ν)) :
    (savesOf N suite acts).Nodup ∧ (run (update N) suite acts).Valid ∧
    ∀ (proposal : TestProposal ν) (cases : List (TestCase ν)) (digest : Units),
      ((∃ why, saveReviewedCases N (run (update N) suite acts) proposal cases digest = .error why) ∧
        update N (run (update N) suite acts) (.review proposal cases digest) = run (update N) suite acts) ∨
      ∃ record, (run (update N) suite acts).proposal proposal.id = some record ∧
        Saved N (run (update N) suite acts) (update N (run (update N) suite acts) (.review proposal cases digest))
          record cases := by
  have hvalid : (run (update N) suite acts).Valid :=
    run_invariant (P := TestSuite.Valid) (fun _ act hs => update_valid hs act) hs acts
  refine ⟨(savesOf_nodup hs acts).1, hvalid, fun proposal cases digest => ?_⟩
  cases h : saveReviewedCases N (run (update N) suite acts) proposal cases digest with
  | error why =>
    refine .inl ⟨⟨why, rfl⟩, ?_⟩
    simp only [update, Act.apply, h]
  | ok suite' =>
    obtain ⟨record, hrecord, hsaved, -⟩ := saveReviewedCases_ok hvalid h
    refine .inr ⟨record, hrecord, ?_⟩
    simp only [update, Act.apply, h]
    exact hsaved

end

/-! ## A run -/

def intNumbers : Numbers Int where
  text n := ⟨intText n, numberForm_intText n⟩
  ofInt n := n

def heldCase : TestCase Int where
  id := wordText "a"
  name := wordText "a"
  revision := 1
  row := [(wordText "id", .str (wordText "a")), (wordText "facts", .obj []), (wordText "expectedErrorClass", .str [])]
  sources := []
  sourceMappings := []
  intentionalFactTypes := none
  origin := .ai
  rationale := []
  inputSnapshot := none
  row_id := rfl

/-- A proposal of the case, made against it. -/
def heldProposal : TestProposal Int where
  id := wordText "p"
  state := .ready
  packDigest := []
  attempts := [.obj [(wordText "document", .obj [(wordText "cases", .arr [.obj heldCase.row])])]]
  sources := []
  caseSnapshots := [(wordText "a", heldCase.identity intNumbers)]
  savedCases := none
  additionsOnly := false

def heldSuite : TestSuite Int := ⟨[heldCase], none, some [heldProposal], []⟩

def reviewTwice : List (Act Int) := [.review heldProposal [heldCase] [], .review heldProposal [heldCase] []]

/-- The second save is refused. -/
theorem proposed_case_saved_once_sample :
    savesOf intNumbers heldSuite reviewTwice = [(wordText "p", wordText "a")] ∧
      (run (update intNumbers) heldSuite reviewTwice).Valid :=
  ⟨by decide +kernel, (proposed_case_saved_once intNumbers heldSuite ⟨by decide, by decide⟩ reviewTwice).2.1⟩

end Suites

end Desk
