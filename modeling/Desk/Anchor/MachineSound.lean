import Desk.Anchor.Machine
import Desk.Lib.Run

/-!
# An enrolled workspace stays anchored

What the three stores tell after any operations that stopped anywhere, and after
any earlier registry was put back.
-/

namespace Desk

namespace Machine

/-! ## What an operation adds -/

def MachineState.anchored (s : MachineState) (workspaceID : String) : Bool := (s.root.bind (·.entry workspaceID)).isSome

/-- From `s` to `t` the registries `new` were written, and no anchor went away. -/
structure Advances (s t : MachineState) (new : List (Phase × Registry)) : Prop where
  versions : t.versions = s.versions ++ new
  registry : t.registry = (new.getLast?.map Prod.snd).or s.registry
  anchored : ∀ id, s.anchored id = true → t.anchored id = true

theorem Advances.refl (s : MachineState) : Advances s s [] := ⟨(List.append_nil _).symm, rfl, fun _ h => h⟩

theorem Advances.trans {s t u : MachineState} {a b : List (Phase × Registry)} (h : Advances s t a) (h' : Advances t u b) :
    Advances s u (a ++ b) where
  versions := by rw [h'.versions, h.versions, List.append_assoc]
  registry := by
    rw [h'.registry, h.registry, List.getLast?_append]
    cases b.getLast? with
    | none => rfl
    | some last => rfl
  anchored id hs := h'.anchored id (h.anchored id hs)

/-- A part of an operation writes some of the registries `allowed`, in their order. -/
def Part.Writes (f : Part) (allowed : List (Phase × Registry)) : Prop :=
  ∀ s, ∃ new, new.Sublist allowed ∧ Advances s (f s).1 new

theorem Part.Writes.andThen {f g : Part} {a b : List (Phase × Registry)} (hf : f.Writes a) (hg : g.Writes b) :
    (f.andThen g).Writes (a ++ b) := by
  intro s
  obtain ⟨new, hnew, hadv⟩ := hf s
  unfold Part.andThen
  by_cases hgo : (f s).2 = true
  · rw [if_pos hgo]
    obtain ⟨new', hnew', hadv'⟩ := hg (f s).1
    exact ⟨new ++ new', hnew.append hnew', hadv.trans hadv'⟩
  · rw [if_neg hgo]
    exact ⟨new, hnew.trans (List.sublist_append_left a b), hadv⟩

theorem Part.Writes.haltIf {c : Prop} [Decidable c] {f : Part} {a : List (Phase × Registry)} (hf : f.Writes a) :
    (haltIf c f).Writes a := by
  intro s
  unfold Machine.haltIf
  by_cases hc : c
  · rw [if_pos hc]
    exact ⟨[], List.nil_sublist a, Advances.refl s⟩
  · rw [if_neg hc]
    exact hf s

/-- A write to the root that is no registry and takes no anchor away. -/
theorem writes_onRoot {fate : Fate} {f : MachineRoot → MachineRoot}
    (hversions : ∀ root, (f root).versions = root.versions) (hregistry : ∀ root, (f root).registry = root.registry)
    (hentry : ∀ root id, (root.entry id).isSome = true → ((f root).entry id).isSome = true) :
    (onRoot fate f).Writes [] := by
  intro s
  refine ⟨[], List.Sublist.refl _, ?_⟩
  unfold onRoot
  cases hroot : s.root with
  | none => exact Advances.refl s
  | some root =>
    cases htook : fate.took with
    | false => exact Advances.refl s
    | true =>
      refine ⟨?_, ?_, fun id hs => ?_⟩
      · simp [MachineState.versions, hroot, hversions]
      · simp [MachineState.registry, hroot, hregistry]
      · rw [MachineState.anchored, hroot] at hs
        exact hentry root id hs

theorem writes_persistRegistry (fate : Fate) (phase : Phase) (r : Registry) :
    (persistRegistry fate phase r).Writes [(phase, r)] := by
  refine Part.Writes.haltIf fun s => ?_
  unfold onRoot
  cases hroot : s.root with
  | none => exact ⟨[], List.nil_sublist _, Advances.refl s⟩
  | some root =>
    cases htook : fate.took with
    | false => exact ⟨[], List.nil_sublist _, Advances.refl s⟩
    | true =>
      refine ⟨[(phase, r)], List.Sublist.refl _, ?_, rfl, fun id hs => ?_⟩
      · simp [MachineState.versions, MachineRoot.written, hroot]
      · rw [MachineState.anchored, hroot] at hs
        exact hs

theorem writes_makeRoot (fate : Fate) (identity : String) : (makeRoot fate identity).Writes [] := by
  intro s
  refine ⟨[], List.Sublist.refl _, ?_⟩
  unfold makeRoot
  cases hroot : s.root with
  | some root => exact Advances.refl s
  | none =>
    cases htook : fate.took with
    | false => exact Advances.refl s
    | true =>
      refine ⟨?_, ?_, fun id hs => ?_⟩
      · simp [MachineState.versions, hroot]
      · simp [MachineState.registry, hroot]
      · rw [MachineState.anchored, hroot] at hs
        cases hs

theorem writes_claimMarker (fate : Fate) (p : Project) (m : Marker) : (claimMarker fate p m).Writes [] := by
  intro s
  refine ⟨[], List.Sublist.refl _, ?_⟩
  unfold claimMarker
  split
  · cases htook : fate.took with
    | false => exact Advances.refl s
    | true => exact ⟨(List.append_nil _).symm, rfl, fun _ h => h⟩
  · exact Advances.refl s

theorem entry_setEntry {root : MachineRoot} {workspaceID id : String} {entry : AnchorEntry}
    (h : (root.entry id).isSome = true) : ((root.setEntry workspaceID entry).entry id).isSome = true := by
  unfold MachineRoot.entry MachineRoot.setEntry at *
  cases hanchors : root.anchors with
  | none =>
    rw [hanchors] at h
    cases h
  | some anchors =>
    rw [hanchors] at h
    show (Table.get? (anchors.set workspaceID entry) id).isSome = true
    rw [Table.get?_set]
    split
    · rfl
    · exact h

theorem writes_setEntry (fate : Fate) (workspaceID : String) (entry : AnchorEntry) :
    (onRoot fate (·.setEntry workspaceID entry)).Writes [] :=
  writes_onRoot (fun _ => rfl) (fun _ => rfl) fun _ _ h => entry_setEntry h

theorem writes_makeAnchors (fate : Fate) : (makeAnchors fate).Writes [] := by
  intro s
  unfold makeAnchors
  by_cases hsome : (s.root.bind (·.anchors)).isSome = true
  · rw [if_pos hsome]
    exact ⟨[], List.Sublist.refl _, Advances.refl s⟩
  · rw [if_neg hsome]
    cases hroot : s.root with
    | none => exact ⟨[], List.Sublist.refl _, by rw [onRoot, hroot]; exact Advances.refl s⟩
    | some root =>
      refine ⟨[], List.Sublist.refl _, ?_⟩
      rw [onRoot, hroot]
      cases htook : fate.took with
      | false => exact Advances.refl s
      | true =>
        refine ⟨?_, ?_, fun id hs => ?_⟩
        · simp [MachineState.versions, hroot]
        · simp [MachineState.registry, hroot]
        · -- where there was no folder there was no entry
          rw [MachineState.anchored, hroot, Option.bind_some, MachineRoot.entry] at hs
          rw [hroot, Option.bind_some] at hsome
          cases hanchors : root.anchors with
          | none =>
            rw [hanchors] at hs
            cases hs
          | some anchors =>
            rw [hanchors] at hsome
            exact absurd rfl hsome

theorem writes_makeWorkspace (fate : Fate) (workspaceID : String) : (makeWorkspace fate workspaceID).Writes [] := by
  intro s
  unfold makeWorkspace
  split
  · exact ⟨[], List.Sublist.refl _, Advances.refl s⟩
  · exact writes_setEntry fate workspaceID ⟨true, none⟩ s

theorem writes_enrollAnchor (call : EnrollCall) (identity : PolicyAuthorityAnchorIdentity) (raw : List UInt8) :
    (enrollAnchor call identity raw).Writes [] := by
  intro s
  unfold enrollAnchor
  split
  · exact ⟨[], List.Sublist.refl _, Advances.refl s⟩
  · split
    · exact ⟨[], List.Sublist.refl _, Advances.refl s⟩
    · exact writes_setEntry _ _ _ s

theorem writes_initializePolicyMachine (call : InitCall) :
    (initializePolicyMachine call).Writes [(.init, initialRegistry call)] :=
  have hlease : (onRoot call.lease fun root => { root with lease := true }).Writes [] :=
    writes_onRoot (fun _ => rfl) (fun _ => rfl) fun _ _ h => h
  .haltIf <| (writes_makeRoot _ _).andThen <| .haltIf <| hlease.andThen <| .haltIf <| writes_persistRegistry _ _ _

/-- The registry with a workspace whose enrollment is meant. -/
def intended (r : Registry) (w : Workspace) (raw : List UInt8) (nonce : String) : Registry :=
  r.placed w.workspaceID .enrolling (some ⟨nonce, digestOf raw⟩)

theorem writes_enrollment (call : EnrollmentCall) (r : Registry) (w : Workspace) (raw : List UInt8) (nonce : String) :
    (enrollment call r w raw nonce).Writes
      [(.intent w.workspaceID, intended r w raw nonce),
        (.final w.workspaceID, (intended r w raw nonce).placed w.workspaceID .enrolled none)] :=
  (writes_persistRegistry _ _ _).andThen <| (writes_claimMarker _ _ _).andThen <| .haltIf <|
    (writes_makeAnchors _).andThen <| (writes_makeWorkspace _ _).andThen <| (writes_enrollAnchor _ _ _).andThen <| .haltIf <|
    writes_persistRegistry _ _ _

/-! ## What an operation is admitted by -/

theorem readRegistry_ok {installationID : String} {custody : Bool} {root : MachineRoot} {r : Registry}
    (h : readRegistry installationID custody root = .ok r) :
    root.registry = some r ∧ r.valid = true ∧ r.installationID = installationID ∧
      knownAnchors r root.anchors = true := by
  unfold readRegistry at h
  obtain ⟨-, h⟩ := refuseWhen_bind_eq_ok.mp h
  obtain ⟨r', hr, h⟩ := bind_eq_ok.mp h
  obtain ⟨hvalid, h⟩ := refuseWhen_bind_eq_ok.mp h
  obtain ⟨hknown, h⟩ := refuseWhen_bind_eq_ok.mp h
  cases h
  rw [orRefuse_eq_ok] at hr
  simp only [not_or, not_not] at hvalid hknown
  exact ⟨hr, hvalid.1, hvalid.2.1, hknown⟩

theorem policyMachineWorkspaceFor_ok {r : Registry} {p : Project} {found : Option Workspace}
    (h : policyMachineWorkspaceFor r p = .ok found) :
    match found with
    | none => ∀ w ∈ r.workspaces, w.projectPath ≠ p.dir ∧ w.projectIdentity ≠ p.identity
    | some w => w ∈ r.workspaces ∧ w.projectPath = p.dir ∧ w.projectIdentity = p.identity := by
  unfold policyMachineWorkspaceFor at h
  obtain ⟨-, h⟩ := refuseWhen_bind_eq_ok.mp h
  split at h
  · next hnone =>
    cases h
    intro w hw
    have hother := List.find?_eq_none.mp hnone w hw
    simpa using hother
  · next w hfind =>
    obtain ⟨hsame, h⟩ := refuseWhen_bind_eq_ok.mp h
    cases h
    rw [not_or, not_not, not_not] at hsame
    exact ⟨List.mem_of_find?_eq_some hfind, hsame⟩

theorem opened_ok {s : MachineState} {call : Call} {root : MachineRoot} {r : Registry} {found : Option Workspace}
    (h : opened s call = .ok (root, r, found)) :
    s.root = some root ∧ readRegistry call.installationID call.custody root = .ok r ∧
      policyMachineWorkspaceFor r call.project = .ok found := by
  unfold opened at h
  obtain ⟨-, h⟩ := refuseWhen_bind_eq_ok.mp h
  obtain ⟨root', hroot, h⟩ := bind_eq_ok.mp h
  obtain ⟨-, h⟩ := refuseWhen_bind_eq_ok.mp h
  obtain ⟨r', hr, h⟩ := bind_eq_ok.mp h
  obtain ⟨found', hfound, h⟩ := bind_eq_ok.mp h
  obtain ⟨-, h⟩ := refuseWhen_bind_eq_ok.mp h
  cases h
  exact ⟨orRefuse_eq_ok.mp hroot, hr, hfound⟩

theorem classifyAdmitted_ok {s : MachineState} {call : ClassifyCall} {r : Registry} (h : classifyAdmitted s call = .ok r) :
    ∃ root, s.root = some root ∧ readRegistry call.installationID call.custody root = .ok r ∧
      policyMachineWorkspaceFor r call.project = .ok none := by
  unfold classifyAdmitted at h
  obtain ⟨⟨root, r', found⟩, hopened, h⟩ := bind_eq_ok.mp h
  dsimp only at h
  obtain ⟨hnone, h⟩ := refuseWhen_bind_eq_ok.mp h
  obtain ⟨_, -, h⟩ := bind_eq_ok.mp h
  obtain ⟨-, h⟩ := refuseWhen_bind_eq_ok.mp h
  obtain ⟨-, h⟩ := refuseWhen_bind_eq_ok.mp h
  cases h
  obtain ⟨hroot, hr, hfound⟩ := opened_ok hopened
  cases found with
  | none => exact ⟨root, hroot, hr, hfound⟩
  | some w => exact absurd rfl hnone

theorem enrollAdmitted_ok {s : MachineState} {call : EnrollmentCall} {r : Registry} {w : Workspace} {raw : List UInt8}
    {nonce : String} (h : enrollAdmitted s call = .ok (r, w, raw, nonce)) :
    ∃ root, s.root = some root ∧ readRegistry call.installationID call.relocked root = .ok r ∧
      policyMachineWorkspaceFor r call.project = .ok (some w) ∧ w.state = .legacy := by
  unfold enrollAdmitted at h
  obtain ⟨⟨root, r', found⟩, hopened, h⟩ := bind_eq_ok.mp h
  dsimp only at h
  obtain ⟨w', _, h⟩ := bind_eq_ok.mp h
  obtain ⟨hlegacy, h⟩ := refuseWhen_bind_eq_ok.mp h
  obtain ⟨_, -, h⟩ := bind_eq_ok.mp h
  obtain ⟨raw', _, h⟩ := bind_eq_ok.mp h
  obtain ⟨-, h⟩ := refuseWhen_bind_eq_ok.mp h
  obtain ⟨again, hagain, h⟩ := bind_eq_ok.mp h
  obtain ⟨current, hcurrent, h⟩ := bind_eq_ok.mp h
  obtain ⟨hsame, h⟩ := refuseWhen_bind_eq_ok.mp h
  obtain ⟨_, -, h⟩ := bind_eq_ok.mp h
  obtain ⟨nonce', _, h⟩ := bind_eq_ok.mp h
  cases h
  rw [not_or, not_not] at hsame
  rw [hsame.1] at hcurrent
  exact ⟨root, (opened_ok hopened).1, hagain, hcurrent, not_not.mp hlegacy⟩

/-! ## What a step writes -/

/-- The registries a step may write. -/
inductive Adds (s : MachineState) : Act → List (Phase × Registry) → Prop where
  | none (a : Act) : Adds s a []
  | init {call : InitCall} (h : s.root = none) : Adds s (.init call) [(.init, initialRegistry call)]
  | classified {call : ClassifyCall} {r : Registry} (h : s.registry = some r) :
    Adds s (.classifyLegacy call) [(.legacy call.workspaceID, r.classified call.project call.workspaceID)]
  | enrolled {call : EnrollmentCall} {r : Registry} {w : Workspace} {raw : List UInt8} {nonce : String}
    {new : List (Phase × Registry)} (h : s.registry = some r) (hw : w ∈ r.workspaces)
    (hnew : new.Sublist [(.intent w.workspaceID, intended r w raw nonce),
      (.final w.workspaceID, (intended r w raw nonce).placed w.workspaceID .enrolled Option.none)]) :
    Adds s (.enroll call) new

theorem sublist_singleton {α : Type} {l : List α} {a : α} (h : l.Sublist [a]) : l = [] ∨ l = [a] := by
  cases h with
  | cons _ hnil => exact Or.inl (List.sublist_nil.mp hnil)
  | cons_cons _ hnil => exact Or.inr (congrArg (a :: ·) (List.sublist_nil.mp hnil))

/-- The spec of a step that puts nothing back. -/
theorem step_adds (s : MachineState) (a : Act) (h : ∀ r, a ≠ .rollback r) :
    ∃ new, Adds s a new ∧ Advances s (step s a) new := by
  cases a with
  | init call =>
    obtain ⟨new, hnew, hadv⟩ := writes_initializePolicyMachine call s
    rcases sublist_singleton hnew with rfl | rfl
    · exact ⟨[], Adds.none _, hadv⟩
    · cases hroot : s.root with
      | none => exact ⟨_, Adds.init hroot, hadv⟩
      | some root =>
        -- a root there is is refused
        have hsame : (initializePolicyMachine call s).1 = s := by
          unfold initializePolicyMachine haltIf Part.andThen makeRoot
          rw [hroot]
          split <;> rfl
        refine ⟨[], Adds.none _, ?_⟩
        show Advances s (initializePolicyMachine call s).1 []
        rw [hsame]
        exact Advances.refl s
  | classifyLegacy call =>
    simp only [step, classifyLegacy]
    cases hadmitted : classifyAdmitted s call with
    | error why => exact ⟨[], Adds.none _, Advances.refl s⟩
    | ok r =>
      obtain ⟨root, hroot, hread, -⟩ := classifyAdmitted_ok hadmitted
      have hregistry : s.registry = some r := by
        rw [MachineState.registry, hroot]
        exact (readRegistry_ok hread).1
      obtain ⟨new, hnew, hadv⟩ := writes_persistRegistry call.fate (.legacy call.workspaceID)
        (r.classified call.project call.workspaceID) s
      rcases sublist_singleton hnew with rfl | rfl
      · exact ⟨[], Adds.none _, hadv⟩
      · exact ⟨_, Adds.classified hregistry, hadv⟩
  | enroll call =>
    simp only [step, enrollLegacy]
    cases hadmitted : enrollAdmitted s call with
    | error why => exact ⟨[], Adds.none _, Advances.refl s⟩
    | ok found =>
      obtain ⟨r, w, raw, nonce⟩ := found
      obtain ⟨root, hroot, hread, hfound, -⟩ := enrollAdmitted_ok hadmitted
      have hregistry : s.registry = some r := by
        rw [MachineState.registry, hroot]
        exact (readRegistry_ok hread).1
      obtain ⟨new, hnew, hadv⟩ := writes_enrollment call r w raw nonce s
      exact ⟨new, Adds.enrolled hregistry (policyMachineWorkspaceFor_ok hfound).1 hnew, hadv⟩
  | rollback r => exact absurd rfl (h r)
  | demand identity demand => exact ⟨[], Adds.none _, (List.append_nil _).symm, rfl, fun _ h => h⟩

/-! ## The workspaces that were given -/

/-- A registry that was written gives the workspace. -/
def MachineState.Gives (s : MachineState) (w : Workspace) : Prop := ∃ v ∈ s.versions, w ∈ v.2.workspaces

/-- The id a classification draws is in no registry there was. -/
def Fresh (s : MachineState) : Act → Prop
  | .classifyLegacy call => ∀ v ∈ s.versions, ∀ w ∈ v.2.workspaces, w.workspaceID ≠ call.workspaceID
  | _ => True

instance (s : MachineState) : ∀ a, Decidable (Fresh s a)
  | .classifyLegacy call =>
    inferInstanceAs (Decidable (∀ v ∈ s.versions, ∀ w ∈ v.2.workspaces, w.workspaceID ≠ call.workspaceID))
  | .init _ => isTrue trivial
  | .enroll _ => isTrue trivial
  | .rollback _ => isTrue trivial
  | .demand _ _ => isTrue trivial

/-- One workspace in two states. -/
def Workspace.Same (w w' : Workspace) : Prop :=
  w.workspaceID = w'.workspaceID ∧ w.projectPath = w'.projectPath ∧ w.projectIdentity = w'.projectIdentity

theorem Workspace.Same.symm {w w' : Workspace} (h : w.Same w') : w'.Same w := ⟨h.1.symm, h.2.1.symm, h.2.2.symm⟩

theorem Workspace.Same.trans {a b c : Workspace} (h : a.Same b) (h' : b.Same c) : a.Same c :=
  ⟨h.1.trans h'.1, h.2.1.trans h'.2.1, h.2.2.trans h'.2.2⟩

/-- The row was in the registry before, or a classification made it, or it was placed. -/
theorem Registry.mem_placed {r : Registry} {workspaceID : String} {state : WorkspaceState} {intent : Option Intent}
    {w : Workspace} (h : w ∈ (r.placed workspaceID state intent).workspaces) :
    ∃ w' ∈ r.workspaces, w'.Same w ∧ (w' = w ∨ w.workspaceID = workspaceID ∧ w.state = state) := by
  obtain ⟨w', hw', heq⟩ := List.mem_map.mp h
  refine ⟨w', hw', ?_⟩
  by_cases hid : w'.workspaceID = workspaceID
  · rw [if_pos hid] at heq
    subst heq
    exact ⟨⟨rfl, rfl, rfl⟩, Or.inr ⟨hid, rfl⟩⟩
  · rw [if_neg hid] at heq
    exact ⟨heq ▸ ⟨rfl, rfl, rfl⟩, Or.inl heq⟩

/-- A row of a registry that is written is one of the registry before it, enrolled by a final write alone, or one
that a classification makes. -/
theorem Adds.row {s : MachineState} {a : Act} {new : List (Phase × Registry)} (h : Adds s a new) {v : Phase × Registry}
    (hv : v ∈ new) {w : Workspace} (hw : w ∈ v.2.workspaces) :
    (∃ r w', s.registry = some r ∧ w' ∈ r.workspaces ∧ w'.Same w ∧
      (w.state = .enrolled → w'.state = .enrolled ∨ v.1 = .final w.workspaceID)) ∨
    ∃ call, a = .classifyLegacy call ∧
      w = ⟨call.workspaceID, call.project.dir, call.project.identity, .legacy, Option.none⟩ := by
  cases h with
  | none => cases hv
  | init =>
    rw [List.mem_singleton.mp hv] at hw
    cases hw
  | @classified call r hr =>
    have hv := List.mem_singleton.mp hv
    subst hv
    rcases List.mem_append.mp hw with hold | hmade
    · exact Or.inl ⟨r, w, hr, hold, ⟨rfl, rfl, rfl⟩, fun he => Or.inl he⟩
    · exact Or.inr ⟨call, rfl, List.mem_singleton.mp hmade⟩
  | @enrolled call r placed raw nonce _ hr _ hnew =>
    refine Or.inl ?_
    rcases List.mem_cons.mp (hnew.subset hv) with rfl | hv
    · obtain ⟨w', hw', hsame, hstate⟩ := Registry.mem_placed hw
      refine ⟨r, w', hr, hw', hsame, fun he => ?_⟩
      rcases hstate with rfl | ⟨-, hst⟩
      · exact Or.inl he
      · rw [hst] at he
        cases he
    · have hv := List.mem_singleton.mp hv
      subst hv
      obtain ⟨w', hw', hsame, hstate⟩ := Registry.mem_placed hw
      obtain ⟨w0, hw0, hsame0, hstate0⟩ := Registry.mem_placed hw'
      refine ⟨r, w0, hr, hw0, hsame0.trans hsame, fun he => ?_⟩
      rcases hstate with rfl | ⟨hid, -⟩
      · rcases hstate0 with rfl | ⟨-, hst⟩
        · exact Or.inl he
        · rw [hst] at he
          cases he
      · exact Or.inr (by rw [hid])

/-! ## The invariant -/

/-- Of every state that is reached: the registry is one that was written, an id has one project, and a workspace
is enrolled by a final write. -/
structure Inv (s : MachineState) : Prop where
  written : ∀ r, s.registry = some r → ∃ v ∈ s.versions, v.2 = r
  owner : ∀ w w', s.Gives w → s.Gives w' → w.workspaceID = w'.workspaceID → w.Same w'
  final : ∀ w, s.Gives w → w.state = .enrolled → ∃ r, (Phase.final w.workspaceID, r) ∈ s.versions

theorem Inv.start : Inv .start where
  written _ h := by cases h
  owner := fun _ _ ⟨_, hv, _⟩ => by cases hv
  final := fun _ ⟨_, hv, _⟩ => by cases hv

/-- A row of the registry is given. -/
theorem Inv.gives {s : MachineState} (hi : Inv s) {r : Registry} (hr : s.registry = some r) {w : Workspace}
    (hw : w ∈ r.workspaces) : s.Gives w := by
  obtain ⟨v, hv, rfl⟩ := hi.written r hr
  exact ⟨v, hv, hw⟩

/-- A workspace given after the step was given before it, or the step classifies it. -/
theorem Adds.gives {s t : MachineState} {a : Act} {new : List (Phase × Registry)} (h : Adds s a new)
    (hadv : Advances s t new) (hi : Inv s) {w : Workspace} (hw : t.Gives w) :
    (∃ w', s.Gives w' ∧ w'.Same w) ∨
      ∃ call, a = .classifyLegacy call ∧
        w = ⟨call.workspaceID, call.project.dir, call.project.identity, .legacy, Option.none⟩ := by
  obtain ⟨v, hv, hw⟩ := hw
  rw [hadv.versions] at hv
  rcases List.mem_append.mp hv with hold | hnew
  · exact Or.inl ⟨w, ⟨v, hold, hw⟩, rfl, rfl, rfl⟩
  · rcases h.row hnew hw with ⟨r, w', hr, hw', hsame, -⟩ | hmade
    · exact Or.inl ⟨w', hi.gives hr hw', hsame⟩
    · exact Or.inr hmade

theorem Adds.inv {s t : MachineState} {a : Act} {new : List (Phase × Registry)} (h : Adds s a new) (hadv : Advances s t new)
    (hfresh : Fresh s a) (hi : Inv s) : Inv t where
  written r hr := by
    rw [hadv.registry] at hr
    rw [hadv.versions]
    cases hlast : new.getLast? with
    | none =>
      rw [hlast] at hr
      obtain ⟨v, hv, heq⟩ := hi.written r hr
      exact ⟨v, List.mem_append_left _ hv, heq⟩
    | some v =>
      rw [hlast] at hr
      cases hr
      exact ⟨v, List.mem_append_right _ (List.mem_of_getLast? hlast), rfl⟩
  owner w w' hw hw' hid := by
    rcases h.gives hadv hi hw with ⟨w0, hw0, hsame⟩ | ⟨call, rfl, rfl⟩
    · rcases h.gives hadv hi hw' with ⟨w0', hw0', hsame'⟩ | ⟨call, rfl, rfl⟩
      · have hid0 : w0.workspaceID = w0'.workspaceID := hsame.1.trans (hid.trans hsame'.1.symm)
        exact hsame.symm.trans ((hi.owner w0 w0' hw0 hw0' hid0).trans hsame')
      · obtain ⟨v, hv, hin⟩ := hw0
        exact absurd (hsame.1.trans hid) (hfresh v hv w0 hin)
    · rcases h.gives hadv hi hw' with ⟨w0', hw0', hsame'⟩ | ⟨call', hcall, rfl⟩
      · obtain ⟨v, hv, hin⟩ := hw0'
        exact absurd (hsame'.1.trans hid.symm) (hfresh v hv w0' hin)
      · cases hcall
        exact ⟨rfl, rfl, rfl⟩
  final w hw he := by
    obtain ⟨v, hv, hw⟩ := hw
    have hmore (r : Registry) (hr : (Phase.final w.workspaceID, r) ∈ s.versions) :
        ∃ r, (Phase.final w.workspaceID, r) ∈ t.versions :=
      ⟨r, hadv.versions ▸ List.mem_append_left _ hr⟩
    have hin := hadv.versions ▸ hv
    rcases List.mem_append.mp hin with hold | hnew
    · obtain ⟨r, hr⟩ := hi.final w ⟨v, hold, hw⟩ he
      exact hmore r hr
    · rcases h.row hnew hw with ⟨r, w', hr, hw', hsame, hstate⟩ | ⟨call, -, rfl⟩
      · rcases hstate he with he' | hphase
        · obtain ⟨r', hr'⟩ := hi.final w' (hi.gives hr hw') he'
          exact hmore r' (hsame.1 ▸ hr')
        · exact ⟨v.2, hphase ▸ hv⟩
      · cases he

/-- What a rollback changes is the registry, to one that was written. -/
theorem rollback_spec (r : Registry) (s : MachineState) :
    (rollback r s).versions = s.versions ∧ (rollback r s).demands = s.demands ∧
      (∀ id, (rollback r s).anchored id = s.anchored id) ∧
      ((rollback r s).registry = s.registry ∨ (rollback r s).registry = some r ∧ ∃ v ∈ s.versions, v.2 = r) := by
  unfold rollback
  by_cases hthere : r ∈ s.versions.map Prod.snd
  · rw [if_pos hthere]
    cases hroot : s.root with
    | none =>
      rw [MachineState.versions, hroot] at hthere
      cases hthere
    | some root =>
      refine ⟨?_, rfl, fun id => ?_, Or.inr ⟨rfl, List.mem_map.mp hthere⟩⟩
      · rw [MachineState.versions, MachineState.versions, hroot]
        rfl
      · rw [MachineState.anchored, MachineState.anchored, hroot]
        rfl
  · rw [if_neg hthere]
    exact ⟨rfl, rfl, fun _ => rfl, Or.inl rfl⟩

theorem inv_rollback {s : MachineState} (r : Registry) (hi : Inv s) : Inv (rollback r s) := by
  obtain ⟨hversions, -, -, hregistry⟩ := rollback_spec r s
  have hgives : ∀ w, (rollback r s).Gives w ↔ s.Gives w := fun w => by rw [MachineState.Gives, hversions]; rfl
  refine ⟨fun r' hr' => ?_, fun w w' hw hw' => ?_, fun w hw => ?_⟩
  · rw [hversions]
    rcases hregistry with hsame | ⟨hback, v, hv, rfl⟩
    · exact hi.written r' (hsame ▸ hr')
    · rw [hback] at hr'
      cases hr'
      exact ⟨v, hv, rfl⟩
  · exact hi.owner w w' ((hgives w).mp hw) ((hgives w').mp hw')
  · rw [hversions]
    exact hi.final w ((hgives w).mp hw)

theorem inv_step (s : MachineState) (a : Act) (hi : Inv s) (hfresh : Fresh s a) : Inv (step s a) := by
  cases a with
  | rollback r => exact inv_rollback r hi
  | init call =>
    obtain ⟨new, hadds, hadv⟩ := step_adds s (.init call) nofun
    exact hadds.inv hadv hfresh hi
  | classifyLegacy call =>
    obtain ⟨new, hadds, hadv⟩ := step_adds s (.classifyLegacy call) nofun
    exact hadds.inv hadv hfresh hi
  | enroll call =>
    obtain ⟨new, hadds, hadv⟩ := step_adds s (.enroll call) nofun
    exact hadds.inv hadv hfresh hi
  | demand identity demand =>
    obtain ⟨new, hadds, hadv⟩ := step_adds s (.demand identity demand) nofun
    exact hadds.inv hadv hfresh hi

theorem run_inv {s : MachineState} (hi : Inv s) {as : List Act} (hfresh : Along step Fresh s as) : Inv (run step s as) :=
  run_invariant_along inv_step hi hfresh

/-- No step takes a workspace back that was given, or an anchor. -/
structure Keeps (s t : MachineState) : Prop where
  gives : ∀ w, s.Gives w → t.Gives w
  anchored : ∀ id, s.anchored id = true → t.anchored id = true

theorem Advances.keeps {s t : MachineState} {new : List (Phase × Registry)} (h : Advances s t new) : Keeps s t where
  gives := fun _ ⟨v, hv, hw⟩ => ⟨v, h.versions ▸ List.mem_append_left _ hv, hw⟩
  anchored := h.anchored

theorem keeps_step (s : MachineState) (a : Act) : Keeps s (step s a) := by
  by_cases hback : ∃ r, a = .rollback r
  · obtain ⟨r, rfl⟩ := hback
    obtain ⟨hversions, -, hanchored, -⟩ := rollback_spec r s
    exact ⟨fun w ⟨v, hv, hw⟩ => ⟨v, hversions.symm ▸ hv, hw⟩, fun id h => (hanchored id).trans h⟩
  · obtain ⟨new, -, hadv⟩ := step_adds s a fun r h => hback ⟨r, h⟩
    exact hadv.keeps

theorem keeps_run (s : MachineState) (as : List Act) : Keeps s (run step s as) :=
  run_related (P := fun _ => True) (fun _ _ _ => trivial) (fun s a _ => keeps_step s a)
    (fun _ => ⟨fun _ h => h, fun _ h => h⟩)
    (fun _ _ _ h h' => ⟨fun w hw => h'.gives w (h.gives w hw), fun id hid => h'.anchored id (h.anchored id hid)⟩)
    trivial as

/-! ## What a registry that is read tells -/

/-- The registry that is read has every anchor's workspace, and not as a legacy. -/
theorem known_of_anchored {s : MachineState} {root : MachineRoot} (hroot : s.root = some root) {r : Registry}
    (hknown : knownAnchors r root.anchors = true) {id : String} (h : s.anchored id = true) :
    ∃ w ∈ r.workspaces, w.workspaceID = id ∧ w.state ≠ .legacy := by
  rw [MachineState.anchored, hroot, Option.bind_some, MachineRoot.entry] at h
  cases hanchors : root.anchors with
  | none =>
    rw [hanchors] at h
    cases h
  | some anchors =>
    rw [hanchors] at h hknown
    obtain ⟨entry, hentry⟩ := Option.isSome_iff_exists.mp h
    unfold knownAnchors at hknown
    rw [Bool.and_eq_true] at hknown
    have hentry := Table.all_iff.mp hknown.2 id entry hentry
    obtain ⟨w, hw, hall⟩ := List.any_eq_true.mp hentry
    simp only [Bool.and_eq_true, beq_iff_eq, bne_iff_ne] at hall
    exact ⟨w, hw, hall.1.1.symm, hall.1.2⟩

theorem unique_of_valid {r : Registry} (h : r.valid = true) {w w' : Workspace} (hw : w ∈ r.workspaces)
    (hw' : w' ∈ r.workspaces)
    (hsame : w.projectPath = w'.projectPath ∨ w.projectIdentity = w'.projectIdentity) : w = w' := by
  simp only [Registry.valid, Bool.and_eq_true, decide_eq_true_eq] at h
  rcases hsame with hpath | hidentity
  · exact List.inj_on_of_nodup_map h.1.2 hw hw' hpath
  · exact List.inj_on_of_nodup_map h.2 hw hw' hidentity

/-- The workspace has the project's path or its folder. -/
def Workspace.Of (w : Workspace) (p : Project) : Prop := w.projectPath = p.dir ∨ w.projectIdentity = p.identity

/-- Where a workspace of the project has an anchor, the registry that is read has it for that project, and not as
a legacy: neither none nor a legacy is found. -/
theorem not_legacy_of_anchored {s : MachineState} (hi : Inv s) {installationID : String} {custody : Bool}
    {root : MachineRoot} (hroot : s.root = some root) {r : Registry} (hread : readRegistry installationID custody root = .ok r) {p : Project}
    {w : Workspace} (hgives : s.Gives w) (hof : w.Of p) (hanchored : s.anchored w.workspaceID = true)
    {found : Option Workspace} (hfound : policyMachineWorkspaceFor r p = .ok found) :
    ∃ w', found = some w' ∧ w'.state ≠ .legacy := by
  obtain ⟨hregistry, hvalid, -, hknown⟩ := readRegistry_ok hread
  have hregistry : s.registry = some r := by rw [MachineState.registry, hroot]; exact hregistry
  obtain ⟨x, hx, hid, hstate⟩ := known_of_anchored hroot hknown hanchored
  obtain ⟨-, hpath, hidentity⟩ := hi.owner x w (hi.gives hregistry hx) hgives hid
  have hfound := policyMachineWorkspaceFor_ok hfound
  cases found with
  | none =>
    rcases hof with hdir | hfolder
    · exact absurd (hpath.trans hdir) (hfound x hx).1
    · exact absurd (hidentity.trans hfolder) (hfound x hx).2
  | some w' =>
    obtain ⟨hw', hdir', hfolder'⟩ := hfound
    have hsame : x = w' := by
      refine unique_of_valid hvalid hx hw' ?_
      rcases hof with hdir | hfolder
      · exact Or.inl (hpath.trans (hdir.trans hdir'.symm))
      · exact Or.inr (hidentity.trans (hfolder.trans hfolder'.symm))
    exact ⟨w', rfl, hsame ▸ hstate⟩

/-- There is no marker of the project. -/
def Demand.Unmarked (d : Demand) : Prop := d = .absent ∨ ∃ isPrivate, d = .folder isPrivate none

theorem inspectPolicyMachineMarker_ok {d : Demand} {marker : Option Marker} (h : inspectPolicyMachineMarker d = .ok marker) :
    match marker with
    | none => d.Unmarked
    | some m => d = .folder true (some (.marker m)) := by
  cases d with
  | absent =>
    cases h
    exact Or.inl rfl
  | irregular => cases h
  | folder isPrivate file =>
    cases file with
    | none =>
      cases isPrivate <;> cases h <;> exact Or.inr ⟨_, rfl⟩
    | some file =>
      cases isPrivate with
      | false => cases h
      | true =>
        cases file with
        | unreadable => cases h
        | marker m =>
          rw [inspectPolicyMachineMarker] at h
          split at h
          · cases h
            rfl
          · cases h

/-- The spec of `resolve`. -/
theorem resolve_ok {s : MachineState} {installationID : String} {standing : Standing} {p : Project}
    {found : Option PolicyAuthorityAnchorIdentity} (h : resolve s installationID standing p = .ok found) :
    ∃ root r w marker, s.root = some root ∧ readRegistry installationID standing.custody root = .ok r ∧
      policyMachineWorkspaceFor r p = .ok (some w) ∧ inspectPolicyMachineMarker (s.demandOf p) = .ok marker ∧
      ((w.state = .legacy ∧ marker = none ∧ found = none) ∨
        (w.state = .enrolled ∧ found = some ⟨r.installationID, w.workspaceID⟩ ∧
          ∃ m, marker = some m ∧ m.installationID = r.installationID ∧ m.workspaceID = w.workspaceID)) := by
  unfold resolve at h
  obtain ⟨-, h⟩ := refuseWhen_bind_eq_ok.mp h
  obtain ⟨root, hroot, h⟩ := bind_eq_ok.mp h
  obtain ⟨r, hr, h⟩ := bind_eq_ok.mp h
  obtain ⟨row, hrow, h⟩ := bind_eq_ok.mp h
  obtain ⟨w, hw, h⟩ := bind_eq_ok.mp h
  obtain ⟨henrolling, h⟩ := refuseWhen_bind_eq_ok.mp h
  obtain ⟨marker, hmarker, h⟩ := bind_eq_ok.mp h
  rw [orRefuse_eq_ok.mp hw] at hrow
  refine ⟨root, r, w, marker, orRefuse_eq_ok.mp hroot, hr, hrow, hmarker, ?_⟩
  by_cases hlegacy : w.state = .legacy
  · rw [if_pos hlegacy] at h
    obtain ⟨hnone, h⟩ := refuseWhen_bind_eq_ok.mp h
    cases h
    exact Or.inl ⟨hlegacy, Option.not_isSome_iff_eq_none.mp hnone, rfl⟩
  · rw [if_neg hlegacy] at h
    obtain ⟨hmatches, h⟩ := refuseWhen_bind_eq_ok.mp h
    obtain ⟨-, h⟩ := refuseWhen_bind_eq_ok.mp h
    cases h
    have henrolled : w.state = .enrolled := by
      cases hstate : w.state with
      | legacy => exact absurd hstate hlegacy
      | enrolling => exact absurd hstate henrolling
      | enrolled => rfl
    rw [not_not, Option.any_eq_true] at hmatches
    obtain ⟨m, hm, hnames⟩ := hmatches
    rw [Bool.and_eq_true, beq_iff_eq, beq_iff_eq] at hnames
    exact Or.inr ⟨henrolled, rfl, m, hm, hnames⟩

/-! ## An anchored workspace -/

/-- Where a project has no anchor there is no marker, and no anchor of a workspace it ever had. -/
theorem resolve_none {s : MachineState} (hi : Inv s) {installationID : String} {standing : Standing} {p : Project}
    (h : resolve s installationID standing p = .ok none) :
    (s.demandOf p).Unmarked ∧ ∀ w, s.Gives w → w.Of p → s.anchored w.workspaceID = false := by
  obtain ⟨root, r, w, marker, hroot, hread, hrow, hmarker, hcase⟩ := resolve_ok h
  rcases hcase with ⟨hlegacy, rfl, -⟩ | ⟨-, hsome, -⟩
  · refine ⟨inspectPolicyMachineMarker_ok hmarker, fun x hx hof => Bool.eq_false_iff.mpr fun hanchored => ?_⟩
    obtain ⟨w', heq, hstate⟩ := not_legacy_of_anchored hi hroot hread hx hof hanchored hrow
    cases heq
    exact hstate hlegacy
  · cases hsome

theorem resolve_some {s : MachineState} (hi : Inv s) {installationID : String} {standing : Standing} {p : Project}
    {identity : PolicyAuthorityAnchorIdentity} (h : resolve s installationID standing p = .ok (some identity)) :
    ∃ r w, s.registry = some r ∧ w ∈ r.workspaces ∧ w.projectPath = p.dir ∧ w.projectIdentity = p.identity ∧
      w.state = .enrolled ∧ identity = ⟨r.installationID, w.workspaceID⟩ ∧
      (∃ m, s.demandOf p = .folder true (some (.marker m)) ∧ m.installationID = r.installationID ∧
        m.workspaceID = w.workspaceID) ∧
      ∃ last, (Phase.final w.workspaceID, last) ∈ s.versions := by
  obtain ⟨root, r, w, marker, hroot, hread, hrow, hmarker, hcase⟩ := resolve_ok h
  rcases hcase with ⟨-, -, hnone⟩ | ⟨henrolled, heq, m, rfl, hnames⟩
  · cases hnone
  · cases heq
    obtain ⟨hw, hdir, hfolder⟩ := policyMachineWorkspaceFor_ok hrow
    have hregistry : s.registry = some r := by
      rw [MachineState.registry, hroot]
      exact (readRegistry_ok hread).1
    exact ⟨r, w, hregistry, hw, hdir, hfolder, henrolled, rfl, ⟨m, inspectPolicyMachineMarker_ok hmarker, hnames⟩,
      hi.final w (hi.gives hregistry hw) henrolled⟩

/-- Nothing is classified again. -/
theorem classifyLegacy_anchored {s : MachineState} (hi : Inv s) {call : ClassifyCall} {w : Workspace} (hgives : s.Gives w)
    (hof : w.Of call.project) (hanchored : s.anchored w.workspaceID = true) : classifyLegacy call s = (s, false) := by
  unfold classifyLegacy
  cases hadmitted : classifyAdmitted s call with
  | error why => rfl
  | ok r =>
    obtain ⟨root, hroot, hread, hfound⟩ := classifyAdmitted_ok hadmitted
    obtain ⟨w', heq, -⟩ := not_legacy_of_anchored hi hroot hread hgives hof hanchored hfound
    cases heq

/-- Nothing is enrolled again. -/
theorem enrollLegacy_anchored {s : MachineState} (hi : Inv s) {call : EnrollmentCall} {w : Workspace} (hgives : s.Gives w)
    (hof : w.Of call.project) (hanchored : s.anchored w.workspaceID = true) : enrollLegacy call s = (s, false) := by
  unfold enrollLegacy
  cases hadmitted : enrollAdmitted s call with
  | error why => rfl
  | ok found =>
    obtain ⟨r, row, raw, nonce⟩ := found
    obtain ⟨root, hroot, hread, hfound, hlegacy⟩ := enrollAdmitted_ok hadmitted
    obtain ⟨w', heq, hstate⟩ := not_legacy_of_anchored hi hroot hread hgives hof hanchored hfound
    cases heq
    exact absurd hlegacy hstate

/-! ## Generations -/

/-- Each registry an operation writes is a generation past the one before it. -/
theorem Adds.generations {s : MachineState} {a : Act} {new : List (Phase × Registry)} (h : Adds s a new) :
    ((s.registry.toList ++ new.map Prod.snd).map Registry.generation).Pairwise (· < ·) := by
  cases h with
  | none =>
    cases s.registry with
    | none => exact List.Pairwise.nil
    | some r => exact List.pairwise_singleton _ _
  | init hroot =>
    rw [MachineState.registry, hroot]
    exact List.pairwise_singleton _ _
  | classified hr =>
    rw [hr]
    exact List.pairwise_pair.mpr (Nat.lt_succ_self _)
  | @enrolled call r w raw nonce _ hr _ hnew =>
    rw [hr]
    have hall : ([r, intended r w raw nonce, (intended r w raw nonce).placed w.workspaceID .enrolled Option.none].map
        Registry.generation).Pairwise (· < ·) :=
      List.isChain_iff_pairwise.mp (.cons_cons (Nat.lt_succ_self _) (.cons_cons (Nat.lt_succ_self _) (.singleton _)))
    exact hall.sublist (((hnew.map Prod.snd).cons_cons r).map Registry.generation)

/-- A step that puts nothing back adds registries of later and later generations to those written, the last of
which stands. -/
def Grows (s t : MachineState) : Prop :=
  ∃ new, t.versions = s.versions ++ new ∧ t.registry = (new.getLast?.map Prod.snd).or s.registry ∧
    ((s.registry.toList ++ new.map Prod.snd).map Registry.generation).Pairwise (· < ·)

theorem grows_step (s : MachineState) (a : Act) (h : ∀ r, a ≠ .rollback r) : Grows s (step s a) := by
  obtain ⟨new, hadds, hadv⟩ := step_adds s a h
  exact ⟨new, hadv.versions, hadv.registry, hadds.generations⟩

/-! ## Runs -/

/-- In every state reached by operations that stop anywhere, by rollbacks of the registry and by anything done to the
markers: without an anchor is only a project that has no marker and none of whose workspaces has an anchor; with
one, only a workspace whose enrollment was written to its end; the generations grow; and a workspace with an
anchor has one ever after, is never again without, and is neither classified nor enrolled again. -/
theorem enrolled_never_unanchored {as : List Act} (hfresh : Along step Fresh .start as) :
    let s := run step .start as
    (∀ installationID standing p, resolve s installationID standing p = .ok none →
      (s.demandOf p).Unmarked ∧ ∀ w, s.Gives w → w.Of p → s.anchored w.workspaceID = false) ∧
    (∀ installationID standing p identity, resolve s installationID standing p = .ok (some identity) →
      ∃ r w, s.registry = some r ∧ w ∈ r.workspaces ∧ w.projectPath = p.dir ∧ w.projectIdentity = p.identity ∧
        w.state = .enrolled ∧ identity = ⟨r.installationID, w.workspaceID⟩ ∧
        (∃ m, s.demandOf p = .folder true (some (.marker m)) ∧ m.installationID = r.installationID ∧
          m.workspaceID = w.workspaceID) ∧
        ∃ last, (Phase.final w.workspaceID, last) ∈ s.versions) ∧
    (∀ a, (∀ r, a ≠ .rollback r) → Grows s (step s a)) ∧
    ∀ w, s.Gives w → s.anchored w.workspaceID = true → ∀ bs, Along step Fresh s bs →
      let t := run step s bs
      t.anchored w.workspaceID = true ∧ ∀ p, w.Of p →
        (∀ installationID standing, resolve t installationID standing p ≠ .ok none) ∧
        (∀ call, call.project = p → classifyLegacy call t = (t, false)) ∧
        ∀ call, call.project = p → enrollLegacy call t = (t, false) := by
  intro s
  have hi : Inv s := run_inv Inv.start hfresh
  refine ⟨fun _ _ _ => resolve_none hi, fun _ _ _ _ => resolve_some hi, fun a ha => grows_step s a ha, ?_⟩
  intro w hgives hanchored bs hbs t
  have hit : Inv t := run_inv hi hbs
  have hkeeps : Keeps s t := keeps_run s bs
  have hgives := hkeeps.gives w hgives
  have hanchored := hkeeps.anchored w.workspaceID hanchored
  refine ⟨hanchored, fun p hof => ⟨fun installationID standing hnone => ?_, fun call hcall => ?_, fun call hcall => ?_⟩⟩
  · have hnot := (resolve_none hit hnone).2 w hgives hof
    rw [hanchored] at hnot
    cases hnot
  · exact classifyLegacy_anchored hit hgives (hcall ▸ hof) hanchored
  · exact enrollLegacy_anchored hit hgives (hcall ▸ hof) hanchored

namespace Sample

def digest (c : Char) : String := String.ofList (List.replicate 64 c)

def done : Fate := ⟨true, true⟩

def project : Project := ⟨"/work", "1:2", true⟩

def call : Call := ⟨digest 'a', project, true, true, true, true⟩

def anchorCall : EnrollCall := ⟨false, .opens, false, true, false, .succeeds, false⟩

def enrollment : EnrollmentCall :=
  { call with
    ledger := some [123, 125], relocked := true, cancelled := false, nonce := some (String.ofList (List.replicate 48 'e'))
    intent := done, marker := done, anchors := done, workspace := done, anchor := anchorCall, finalAdmitted := true
    final := done }

/-- The machine is initialized, and a project classified and enrolled. -/
def acts : List Act :=
  [.init ⟨true, done, "1:1", true, done, true, digest 'a', true, done⟩, .demand "1:2" (.folder true none),
    .classifyLegacy { call with workspaceID := digest 'b', fate := done }, .enroll enrollment]

theorem acts_fresh : Along step Fresh .start acts := by
  decide +kernel

end Sample

theorem enrolled_never_unanchored_sample :
    Along step Fresh .start Sample.acts ∧
      ∀ w, (run step .start Sample.acts).Gives w → (run step .start Sample.acts).anchored w.workspaceID = true →
        w.Of Sample.project → ∀ installationID standing,
          resolve (run step .start Sample.acts) installationID standing Sample.project ≠ .ok none := by
  refine ⟨Sample.acts_fresh, fun w hgives hanchored hof installationID standing hnone => ?_⟩
  obtain ⟨hunanchored, -⟩ := enrolled_never_unanchored Sample.acts_fresh
  have hnot := (hunanchored installationID standing Sample.project hnone).2 w hgives hof
  rw [hanchored] at hnot
  cases hnot

end Machine

end Desk
