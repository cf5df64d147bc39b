import Desk.Canon.Session

/-!
# What a passing session means

The conditions under which a verdict passes, stated of the input alone, and
that the verifier answers `ok` exactly there.
-/

namespace Desk.Verify

/-! ## The conditions -/

/-- A member of a receipt, as the ladder reads it. -/
def held (receipt : JsonNode) (name : String) : Option JsonNode := (membersOf receipt).bind (·.get name)

def signatureOf (receipt : JsonNode) : Option Units := stringOf (held receipt "signature")

/-- A previous signature that is null is none. -/
def prevSignatureOf (receipt : JsonNode) : Option Units := stringMember receipt "prevSignature"

variable (c : Crypto) (input : SessionInput)

/-- The receipt held at position `i` is a well-formed receipt of its version that says where it
stands and what it covers, is signed by the pinned key, and has its result beside it. -/
structure Verified (keyId : Units) (i : Nat) (h : HeldReceipt) (version : Version) : Prop where
  shape : shapeOf h.receipt = .of version
  callIndex : ∃ literal, held h.receipt "callIndex" = some (.num literal) ∧ literalInt literal = i
  keyId : stringOf (held h.receipt "keyId") = some keyId
  sessionId : stringOf (held h.receipt "sessionId") = some input.sessionId
  authority : stringOf (held h.receipt "authority") = some input.authority
  notAction : stringMember h.receipt "kind" ≠ some (wordText "action")
  signature : ∃ members canonical signature, h.receipt = .obj members ∧
    canonicalize (.obj (members.filter fun m => m.1 != wordText "signature")) = some canonical ∧
    signatureOf h.receipt = some signature ∧
    c.verifyEd25519 input.publicKeyHex (withPrefix (receiptPrefix version) canonical) (c.toLowerCase signature) = true
  result : ∃ result canonical, h.result = some result ∧ canonicalize result = some canonical ∧
    stringOf (held h.receipt "resultDigest") = some (wordText "sha256:" ++ c.sha256Hex canonical)

/-- A line of the registry that is a seal of this session, signed by the pinned key over its count. -/
structure LoadableSeal (keyId line : Units) (finalCount : Int) : Prop where
  notBlank : line.all isTrimmed = false
  carried : ∃ sealNode signature count covered, parseJsonText line = some sealNode ∧
    stringMember sealNode "sessionId" = some input.sessionId ∧ stringMember sealNode "keyId" = some keyId ∧
    stringMember sealNode "signature" = some signature ∧ memberOf sealNode "finalCount" = some (.num count) ∧
    integerForm count = true ∧ sealSigningInput sealNode = some covered ∧
    c.verifyEd25519 input.publicKeyHex covered (c.toLowerCase signature) = true ∧ literalInt count = finalCount

/-- What a passing verdict means. -/
structure Accepted (keyId : Units) : Prop where
  pinned : c.keyIdOf input.publicKeyHex = some keyId
  notEmpty : input.receipts ≠ []
  receipts : ∃ version, ∀ i h, input.receipts[i]? = some h → Verified c input keyId i h version
  head : ∀ h, input.receipts[0]? = some h → prevSignatureOf h.receipt = none
  chain : ∀ i h h', input.receipts[i]? = some h → input.receipts[i + 1]? = some h' →
    prevSignatureOf h'.receipt = signatureOf h.receipt
  sealed : ∃ before line after, input.registryText.splitOn (unit '\n') = before ++ line :: after ∧
    (∀ l ∈ before, ∀ n, ¬LoadableSeal c input keyId l n) ∧ LoadableSeal c input keyId line input.receipts.length

/-! ## One receipt -/

theorem membersOf_some {node : JsonNode} {m : Members} (h : membersOf node = some m) : node = .obj m.entries := by
  unfold membersOf at h
  split at h
  · rw [← Option.some.inj h]
  · cases h

/-- A well-formed receipt has its call index and its signature. -/
theorem shapeOf_members {receipt : JsonNode} {version : Version} (h : shapeOf receipt = .of version) :
    ∃ members literal signature, receipt = .obj members ∧ held receipt "callIndex" = some (.num literal) ∧
      signatureOf receipt = some signature := by
  unfold shapeOf at h
  split at h
  · cases h
  rename_i r hr
  have hm := membersOf_some hr
  by_cases h1 : (canonicalize receipt).isNone = true
  · rw [if_pos h1] at h
    cases h
  rw [if_neg h1] at h
  by_cases h2 : (!(stringOf (r.get "signature")).any hexText) = true
  · rw [if_pos h2] at h
    cases h
  rw [if_neg h2] at h
  by_cases h3 : (!isIndex (r.get "callIndex")) = true
  · rw [if_pos h3] at h
    cases h
  have hs : ∃ signature, stringOf (r.get "signature") = some signature := by
    cases hsig : stringOf (r.get "signature") with
    | none => simp [hsig] at h2
    | some signature => exact ⟨signature, rfl⟩
  have hc : ∃ literal, r.get "callIndex" = some (.num literal) := by
    simp only [Bool.not_eq_true, Bool.not_eq_false'] at h3
    unfold isIndex at h3
    split at h3
    · exact ⟨_, by assumption⟩
    · cases h3
  obtain ⟨signature, hs⟩ := hs
  obtain ⟨literal, hc⟩ := hc
  exact ⟨r.entries, literal, signature, hm, by simp [held, hr, hc], by simp [signatureOf, held, hr, hs]⟩

/-- What the chain needs of a receipt that passed. -/
def passedOf (i : Nat) (h : HeldReceipt) (version : Version) : Passed :=
  ⟨i, i, version, (signatureOf h.receipt).getD [], prevSignatureOf h.receipt⟩

variable {c input}

theorem Verified.checked {keyId : Units} {i : Nat} {h : HeldReceipt} {version : Version}
    (v : Verified c input keyId i h version) :
    checkReceipt c input keyId i h = (⟨input.sessionId, some i, .ok, none⟩, some (passedOf i h version)) := by
  obtain ⟨hshape, ⟨literal, hci, hcv⟩, hk, hsid, hauth, hact, ⟨members, canonical, signature, hm, hcan, hsig, hver⟩,
    ⟨result, bytes, hres, hbytes, hdig⟩⟩ := v
  have hr : membersOf h.receipt = some ⟨members⟩ := by rw [hm]; rfl
  simp only [held, hr, Option.bind_some] at hci hk hsid hauth hdig
  simp only [signatureOf, held, hr, Option.bind_some] at hsig
  have hindex : callIndexOf ⟨members⟩ = i := by simp [callIndexOf, hci, hcv]
  have hinput : receiptSigningInput h.receipt version = some (withPrefix (receiptPrefix version) canonical) := by
    rw [hm]
    simp [receiptSigningInput, hcan]
  have hdigest : digestOf c result = some (wordText "sha256:" ++ c.sha256Hex bytes) := by simp [digestOf, hbytes]
  simp only [checkReceipt, hshape, hr, hindex, hk, hinput, hsid, hauth, hact, hres, hdigest, hdig, hsig, hver,
    passedOf, signatureOf, held, prevSignatureOf, Option.bind_some, Option.getD_some]
  simp

theorem checkReceipt_ok {keyId : Units} {i : Nat} {h : HeldReceipt}
    (ok : (checkReceipt c input keyId i h).1.status = .ok) : ∃ version, Verified c input keyId i h version := by
  unfold checkReceipt at ok
  split at ok
  · rename_i version r hshape hr
    obtain ⟨members, literal, signature, hm, hci, hsig⟩ := shapeOf_members hshape
    have hr' : r = ⟨members⟩ := by rw [hm] at hr; exact (Option.some.inj hr).symm
    subst hr'
    have hheld : ∀ name, held h.receipt name = Members.get ⟨members⟩ name := by
      intro name
      rw [hm]
      rfl
    rw [hheld] at hci
    rw [signatureOf, hheld] at hsig
    have hindex : callIndexOf ⟨members⟩ = literalInt literal := by simp [callIndexOf, hci]
    simp only [hsig, hindex, Option.getD_some] at ok
    split at ok
    · cases ok
    rename_i hk
    split at ok
    · cases ok
    rename_i input3 hinput
    split_ifs at ok with hver hfile hauth hact
    split at ok
    · cases ok
    rename_i result hres
    split at ok
    · cases ok
    rename_i digest hdigest
    split_ifs at ok with hdig
    push Not at hk hfile hauth hdig
    obtain ⟨canonical, hcan, hinput⟩ : ∃ canonical,
        canonicalize (.obj (members.filter fun m => m.1 != wordText "signature")) = some canonical ∧
          withPrefix (receiptPrefix version) canonical = input3 := by
      rw [hm] at hinput
      simpa [receiptSigningInput, Option.bind_eq_some_iff] using hinput
    obtain ⟨bytes, hbytes, hd⟩ : ∃ bytes, canonicalize result = some bytes ∧
        wordText "sha256:" ++ c.sha256Hex bytes = digest := by simpa [digestOf] using hdigest
    refine ⟨version, hshape, ⟨literal, by rw [hheld, hci], hfile.1⟩, ?_, ?_, ?_, hact, ?_, ?_⟩
    · rw [hheld]; exact hk
    · rw [hheld]; exact hfile.2
    · rw [hheld]; exact hauth
    · refine ⟨members, canonical, signature, hm, hcan, by rw [signatureOf, hheld, hsig], ?_⟩
      rw [hinput]
      simpa using hver
    · exact ⟨result, bytes, hres, hbytes, by rw [hheld, hd]; exact hdig.symm⟩
  · cases ok
  · cases ok

theorem checkReceipt_ok_iff {keyId : Units} {i : Nat} {h : HeldReceipt} :
    (checkReceipt c input keyId i h).1.status = .ok ↔ ∃ version, Verified c input keyId i h version := by
  constructor
  · exact checkReceipt_ok
  · rintro ⟨version, v⟩
    rw [v.checked]

/-! ## The receipts together -/

theorem chainHolds_iff (version : Version) (expected : Option Units) (passed : List Passed) :
    chainHolds version expected passed = true ↔
      (∀ p ∈ passed, p.version = version) ∧ (∀ p, passed[0]? = some p → p.prevSignature = expected) ∧
      ∀ i p p', passed[i]? = some p → passed[i + 1]? = some p' → p'.prevSignature = some p.signature := by
  induction passed generalizing expected with
  | nil => simp [chainHolds]
  | cons p rest ih =>
    simp only [chainHolds, Bool.and_eq_true, beq_iff_eq, ih]
    constructor
    · rintro ⟨⟨hp, hv⟩, hvs, hhead, hchain⟩
      refine ⟨?_, ?_, ?_⟩
      · intro q hq
        obtain rfl | hq := List.mem_cons.mp hq
        · exact hv
        · exact hvs q hq
      · rintro q ⟨⟩
        exact hp
      · intro i q q' hi hi'
        cases i with
        | zero =>
          obtain rfl := Option.some.inj hi
          exact hhead q' hi'
        | succ i => exact hchain i q q' hi hi'
    · rintro ⟨hvs, hhead, hchain⟩
      refine ⟨⟨hhead p rfl, hvs p (List.mem_cons_self ..)⟩, fun q hq => hvs q (List.mem_cons_of_mem _ hq), ?_, ?_⟩
      · intro q hq
        exact hchain 0 p q rfl hq
      · intro i q q' hi hi'
        exact hchain (i + 1) q q' hi hi'

theorem contiguous_range (n : Nat) : contiguous ((List.range n).map (Nat.cast : Nat → Int)) = true := by
  have hsorted : ((List.range n).map (Nat.cast : Nat → Int)).insertionSort (· ≤ ·) =
      (List.range n).map (Nat.cast : Nat → Int) := by
    apply List.Pairwise.insertionSort_eq
    rw [List.pairwise_map]
    exact List.pairwise_lt_range.imp (by omega)
  rw [contiguous, hsorted, List.all_eq_true]
  rintro ⟨value, position⟩ hmem
  rw [List.mk_mem_zipIdx_iff_getElem?] at hmem
  simp only [List.getElem?_map, Option.map_eq_some_iff] at hmem
  obtain ⟨a, ha, rfl⟩ := hmem
  have := List.getElem?_eq_some_iff.mp ha
  simp_all

def versionOf (receipt : JsonNode) : Version :=
  match shapeOf receipt with
  | .of version => version
  | _ => .two

theorem Verified.version {keyId : Units} {i : Nat} {h : HeldReceipt} {version : Version}
    (v : Verified c input keyId i h version) : versionOf h.receipt = version := by
  simp [versionOf, v.shape]

/-- Every receipt passes the ladder. -/
def AllVerified (c : Crypto) (input : SessionInput) (keyId : Units) : Prop :=
  ∀ i h, input.receipts[i]? = some h → Verified c input keyId i h (versionOf h.receipt)

theorem checkReceipts_ok_iff {keyId : Units} :
    (((checkReceipts c input keyId).map Prod.fst).all fun finding => finding.status == .ok) = true ↔
      AllVerified c input keyId := by
  simp only [checkReceipts, List.map_map, List.all_map, List.all_eq_true, Function.comp_apply, beq_iff_eq]
  constructor
  · intro h i held hi
    have hok := h (held, i) (List.mk_mem_zipIdx_iff_getElem?.mpr hi)
    obtain ⟨version, v⟩ := checkReceipt_ok hok
    rw [v.version]
    exact v
  · rintro h ⟨held, i⟩ hmem
    have v := h i held (List.mk_mem_zipIdx_iff_getElem?.mp hmem)
    simp only [v.checked]

theorem passed_eq {keyId : Units} (all : AllVerified c input keyId) :
    (checkReceipts c input keyId).filterMap Prod.snd =
      input.receipts.zipIdx.map fun (h, i) => passedOf i h (versionOf h.receipt) := by
  rw [checkReceipts, List.filterMap_map, ← List.filterMap_eq_map]
  apply List.filterMap_congr
  rintro ⟨held, i⟩ hmem
  have v := all i held (List.mk_mem_zipIdx_iff_getElem?.mp hmem)
  simp [v.checked]

theorem getElem?_passed (receipts : List HeldReceipt) (i : Nat) :
    (receipts.zipIdx.map fun (h, i) => passedOf i h (versionOf h.receipt))[i]? =
      receipts[i]?.map fun h => passedOf i h (versionOf h.receipt) := by
  simp [List.getElem?_zipIdx, Function.comp_def]

theorem passed_callIndex (receipts : List HeldReceipt) :
    (receipts.zipIdx.map fun (h, i) => passedOf i h (versionOf h.receipt)).map (·.callIndex) =
      (List.range receipts.length).map (Nat.cast : Nat → Int) := by
  rw [List.map_map, List.range_eq_range', ← List.zipIdx_map_snd, List.map_map]
  rfl

theorem sequenceFindings_ok_iff {keyId : Units} (all : AllVerified c input keyId) (hne : input.receipts ≠ []) :
    ((sequenceFindings input ((checkReceipts c input keyId).filterMap Prod.snd)).all
      fun finding => finding.status == .ok) = true ↔
      (∃ version, ∀ (i : Nat) (h : HeldReceipt), input.receipts[i]? = some h → versionOf h.receipt = version) ∧
      (∀ h : HeldReceipt, input.receipts[0]? = some h → prevSignatureOf h.receipt = none) ∧
      ∀ (i : Nat) (h h' : HeldReceipt), input.receipts[i]? = some h → input.receipts[i + 1]? = some h' →
        prevSignatureOf h'.receipt = signatureOf h.receipt := by
  rw [passed_eq all]
  obtain ⟨first, rest, hcons⟩ := List.exists_cons_of_ne_nil hne
  have hfirst : input.receipts[0]? = some first := by rw [hcons]; rfl
  have hsig : ∀ (i : Nat) (h : HeldReceipt), input.receipts[i]? = some h →
      some ((signatureOf h.receipt).getD []) = signatureOf h.receipt := by
    intro i h hi
    obtain ⟨-, -, signature, -, -, hs⟩ := shapeOf_members (all i h hi).shape
    rw [hs]
    rfl
  have hseq : ((sequenceFindings input (input.receipts.zipIdx.map fun (h, i) => passedOf i h (versionOf h.receipt))).all
      fun finding => finding.status == .ok) =
      chainHolds (versionOf first.receipt) none
        (input.receipts.zipIdx.map fun (h, i) => passedOf i h (versionOf h.receipt)) := by
    unfold sequenceFindings
    rw [passed_callIndex, contiguous_range, hcons, List.zipIdx_cons, List.map_cons]
    simp only [Bool.not_true, Bool.false_eq_true, if_false]
    split_ifs with h
    · exact h.symm
    · exact (Bool.eq_false_iff.mpr h).symm
  rw [hseq, chainHolds_iff]
  constructor
  · rintro ⟨hv, hhead, hchain⟩
    refine ⟨⟨versionOf first.receipt, ?_⟩, ?_, ?_⟩
    · intro i h hi
      exact hv _ (List.mem_of_getElem? (by rw [getElem?_passed, hi]; rfl))
    · intro h hi
      exact hhead _ (by rw [getElem?_passed, hi]; rfl)
    · intro i h h' hi hi'
      rw [← hsig i h hi]
      exact hchain i _ _ (by rw [getElem?_passed, hi]; rfl) (by rw [getElem?_passed, hi']; rfl)
  · rintro ⟨⟨version, hv⟩, hhead, hchain⟩
    refine ⟨?_, ?_, ?_⟩
    · intro p hp
      obtain ⟨i, hi⟩ := List.getElem?_of_mem hp
      rw [getElem?_passed, Option.map_eq_some_iff] at hi
      obtain ⟨h, hi, rfl⟩ := hi
      exact (hv i h hi).trans (hv 0 first hfirst).symm
    · intro p hp
      rw [getElem?_passed, Option.map_eq_some_iff] at hp
      obtain ⟨h, hi, rfl⟩ := hp
      exact hhead h hi
    · intro i p p' hi hi'
      rw [getElem?_passed, Option.map_eq_some_iff] at hi hi'
      obtain ⟨h, hi, rfl⟩ := hi
      obtain ⟨h', hi', rfl⟩ := hi'
      exact (hchain i h h' hi hi').trans (hsig i h hi).symm

/-! ## The seal -/

theorem sealCount_iff {keyId line : Units} {n : Int} :
    sealCount c input keyId line = some n ↔ LoadableSeal c input keyId line n := by
  unfold sealCount
  constructor
  · intro h
    split_ifs at h with hblank
    split at h
    · cases h
    rename_i sealNode hparse
    split_ifs at h with hsid hk
    split at h
    · rename_i count signature hcount hsig
      split_ifs at h with hint
      split at h
      · cases h
      rename_i covered hcov
      split_ifs at h with hver
      exact ⟨by simpa using hblank, sealNode, signature, count, covered, hparse, not_ne_iff.mp hsid, not_ne_iff.mp hk,
        hsig, hcount, by simpa using hint, hcov, by simpa using hver, Option.some.inj h⟩
    · cases h
  · rintro ⟨hblank, sealNode, signature, count, covered, hparse, hsid, hk, hsig, hcount, hint, hcov, hver, rfl⟩
    simp [hblank, hparse, hsid, hk, hsig, hcount, hint, hcov, hver]

theorem sealFindings_ok_iff {keyId : Units} :
    ((sealFindings input ((input.registryText.splitOn (unit '\n')).findSome? (sealCount c input keyId))).all
      fun finding => finding.status == .ok) = true ↔
      ∃ before line after, input.registryText.splitOn (unit '\n') = before ++ line :: after ∧
        (∀ l ∈ before, ∀ n, ¬LoadableSeal c input keyId l n) ∧
        LoadableSeal c input keyId line input.receipts.length := by
  have hfound : ∀ finalCount : Option Int,
      ((sealFindings input finalCount).all fun finding => finding.status == .ok) = true ↔
        finalCount = some (input.receipts.length : Int) := by
    intro finalCount
    cases finalCount with
    | none => simp [sealFindings]
    | some count =>
      simp only [sealFindings, Option.some.injEq]
      split_ifs with hlt hgt
      · simp
        omega
      · simp
        omega
      · simp
        omega
  have hnone : ∀ l, sealCount c input keyId l = none ↔ ∀ n, ¬LoadableSeal c input keyId l n := by
    intro l
    simp only [← sealCount_iff]
    cases sealCount c input keyId l <;> simp
  rw [hfound, List.findSome?_eq_some_iff]
  constructor
  · rintro ⟨before, line, after, hlines, hline, hbefore⟩
    exact ⟨before, line, after, hlines, fun l hl => (hnone l).mp (hbefore l hl), sealCount_iff.mp hline⟩
  · rintro ⟨before, line, after, hlines, hbefore, hline⟩
    exact ⟨before, line, after, hlines, sealCount_iff.mpr hline, fun l hl => (hnone l).mpr (hbefore l hl)⟩

/-! ## The verdict -/

theorem accepted_iff {keyId : Units} (pinned : c.keyIdOf input.publicKeyHex = some keyId) :
    Accepted c input keyId ↔ input.receipts ≠ [] ∧ AllVerified c input keyId ∧
      ((∃ version, ∀ (i : Nat) (h : HeldReceipt), input.receipts[i]? = some h → versionOf h.receipt = version) ∧
      (∀ h : HeldReceipt, input.receipts[0]? = some h → prevSignatureOf h.receipt = none) ∧
      ∀ (i : Nat) (h h' : HeldReceipt), input.receipts[i]? = some h → input.receipts[i + 1]? = some h' →
        prevSignatureOf h'.receipt = signatureOf h.receipt) ∧
      ∃ before line after, input.registryText.splitOn (unit '\n') = before ++ line :: after ∧
        (∀ l ∈ before, ∀ n, ¬LoadableSeal c input keyId l n) ∧
        LoadableSeal c input keyId line input.receipts.length := by
  constructor
  · rintro ⟨-, hne, ⟨version, hall⟩, hhead, hchain, hseal⟩
    have hversion : ∀ (i : Nat) (h : HeldReceipt), input.receipts[i]? = some h → versionOf h.receipt = version :=
      fun i h hi => (hall i h hi).version
    refine ⟨hne, ?_, ⟨⟨version, hversion⟩, hhead, hchain⟩, hseal⟩
    intro i h hi
    rw [hversion i h hi]
    exact hall i h hi
  · rintro ⟨hne, hall, ⟨⟨version, hversion⟩, hhead, hchain⟩, hseal⟩
    refine ⟨pinned, hne, ⟨version, ?_⟩, hhead, hchain, hseal⟩
    intro i h hi
    rw [← hversion i h hi]
    exact hall i h hi

/-- The verdict passes exactly where every receipt verifies at its place, the receipts form one
chain of one version, and the first loadable seal of the session counts them all. -/
theorem verifySession_ok_iff (c : Crypto) (input : SessionInput) :
    (∃ verdict, verifySession c input = some verdict ∧ verdict.ok = true) ↔ ∃ keyId, Accepted c input keyId := by
  cases hkey : c.keyIdOf input.publicKeyHex with
  | none =>
    constructor
    · rintro ⟨verdict, hv, -⟩
      simp [verifySession, hkey] at hv
    · rintro ⟨keyId, h⟩
      have := h.pinned
      rw [hkey] at this
      cases this
  | some keyId =>
    have hverdict : (∃ verdict, verifySession c input = some verdict ∧ verdict.ok = true) ↔ Accepted c input keyId := by
      rw [accepted_iff hkey]
      simp only [verifySession, hkey, Option.bind_eq_bind, Option.bind_some, Option.pure_def, Option.some.injEq,
        exists_eq_left', Bool.and_eq_true, decide_eq_true_eq, List.length_pos_iff, List.all_append, and_assoc]
      apply and_congr_right
      intro hne
      rw [checkReceipts_ok_iff]
      apply and_congr_right
      intro hall
      rw [sequenceFindings_ok_iff hall hne, sealFindings_ok_iff, and_assoc, and_assoc]
    rw [hverdict]
    constructor
    · intro h
      exact ⟨keyId, h⟩
    · rintro ⟨keyId', h⟩
      have heq := h.pinned.symm.trans hkey
      obtain rfl := Option.some.inj heq
      exact h

end Desk.Verify
