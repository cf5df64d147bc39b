import Desk.Packs.Pointers

/-!
# Diagnostics on the page

A diagnostic is printed on one block of the page, the nearest rendered one at or
above the member it names. The panel of a block shows what is printed on it and
under it.
-/

namespace Desk

namespace Checks

open Pointers (pointer parsePointer under)

variable {δ : Type}

/-- Of a diagnostic only its path is read here. -/
structure Diagnostic (δ : Type) where
  instancePath : Option Units
  rest : δ
deriving DecidableEq

def Diagnostic.named (d : Diagnostic δ) : Units := d.instancePath.getD []

structure AnchoredDiagnostic (δ : Type) where
  diagnostic : Diagnostic δ
  anchor : Units
  named : Units
  approximate : Bool

/-- The ancestors, longest first, without the pointer itself. -/
def parentPointers (text : Units) : List Units :=
  match parsePointer text with
  | none => []
  | some parts => (List.range parts.length).reverse.map fun length => pointer (parts.take length)

/-- Where one diagnostic is printed. -/
def anchorOne (rendered : Units → Bool) (d : Diagnostic δ) : AnchoredDiagnostic δ :=
  if d.named ≠ [] ∧ rendered d.named then ⟨d, d.named, d.named, false⟩
  else
    match (parentPointers d.named).find? rendered with
    | some ancestor => ⟨d, ancestor, d.named, true⟩
    | none => ⟨d, [], d.named, decide (d.named ≠ [])⟩

def anchor (diagnostics : List (Diagnostic δ)) (rendered : Units → Bool) : List (AnchoredDiagnostic δ) :=
  diagnostics.map (anchorOne rendered)

def diagnosticsFor (anchored : List (AnchoredDiagnostic δ)) (at_ : Units) : List (AnchoredDiagnostic δ) :=
  anchored.filter fun entry => under at_ entry.anchor

/-! ## The nearest rendered block -/

/-- The first of the numbers below `n`, from above, is the greatest. -/
theorem find_below {α : Type} {f : Nat → α} {p : α → Bool} {a : α} : ∀ {n : Nat},
    ((List.range n).reverse.map f).find? p = some a → ∃ k < n, a = f k ∧ p a = true ∧ ∀ j < n, p (f j) = true → j ≤ k
  | 0, h => by cases h
  | n + 1, h => by
    rw [List.range_succ, List.reverse_append, List.reverse_singleton, List.singleton_append, List.map_cons,
      List.find?_cons] at h
    split at h
    · next hp =>
      cases h
      exact ⟨n, Nat.lt_succ_self n, rfl, hp, fun j hj _ => Nat.le_of_lt_succ hj⟩
    · next hp =>
      obtain ⟨k, hk, ha, hpa, hmax⟩ := find_below h
      refine ⟨k, Nat.lt_succ_of_lt hk, ha, hpa, fun j hj hpj => ?_⟩
      obtain hj | rfl := Nat.lt_succ_iff_lt_or_eq.mp hj
      · exact hmax j hj hpj
      · rw [hpj] at hp
        cases hp

theorem pointer_eq_nil {path : List Units} (h : pointer path = []) : path = [] :=
  Pointers.pointer_injective (h.trans rfl)

/-- A diagnostic that names a path is printed on the longest rendered start of it, else on the document. -/
theorem anchorOne_nearest (rendered : Units → Bool) {d : Diagnostic δ} {path : List Units} (hd : d.named = pointer path) :
    ∃ up, up <+: path ∧ (anchorOne rendered d).anchor = pointer up ∧ (rendered (pointer up) = true ∨ up = []) ∧
      (∀ other, other <+: path → rendered (pointer other) = true → other <+: up) ∧
      ((anchorOne rendered d).approximate = false ↔ up = path) := by
  rw [anchorOne, hd, parentPointers, Pointers.parsePointer_pointer]
  split_ifs with hself
  · exact ⟨path, List.prefix_refl _, rfl, .inl hself.2, fun _ hother _ => hother, iff_of_true rfl rfl⟩
  -- a rendered start of the path is a proper one here, or the whole path is empty
  have hproper : ∀ other, other <+: path → rendered (pointer other) = true →
      other = [] ∨ other.length < path.length ∧ other = path.take other.length := by
    intro other hother hr
    by_cases hlt : other.length < path.length
    · exact .inr ⟨hlt, List.prefix_iff_eq_take.mp hother⟩
    · have heq : other = path := hother.eq_of_length_le (Nat.not_lt.mp hlt)
      rw [heq] at hr ⊢
      exact .inl (pointer_eq_nil (by_contra fun hne => hself ⟨hne, hr⟩))
  cases hfind : ((List.range path.length).reverse.map fun length => pointer (path.take length)).find? rendered with
  | some ancestor =>
    obtain ⟨k, hk, rfl, hr, hmax⟩ := find_below hfind
    refine ⟨path.take k, List.take_prefix k path, rfl, .inl hr, fun other hother hro => ?_, ?_⟩
    · obtain rfl | ⟨hlt, heq⟩ := hproper other hother hro
      · exact List.nil_prefix
      · rw [heq] at hro ⊢
        exact List.take_prefix_take_left (hmax _ hlt hro)
    · refine iff_of_false nofun fun heq => ?_
      have hlen := congrArg List.length heq
      rw [List.length_take] at hlen
      omega
  | none =>
    refine ⟨[], List.nil_prefix, rfl, .inr rfl, fun other hother hro => ?_, ?_⟩
    · obtain rfl | ⟨hlt, heq⟩ := hproper other hother hro
      · exact List.prefix_refl _
      · rw [List.find?_eq_none] at hfind
        rw [heq] at hro
        exact absurd hro (hfind _ (List.mem_map.mpr ⟨_, List.mem_reverse.mpr (List.mem_range.mpr hlt), rfl⟩))
    · rw [decide_eq_false_iff_not, not_not]
      exact ⟨fun h => (pointer_eq_nil h).symm, fun h => h ▸ rfl⟩

/-- Where every diagnostic names a path, each is printed on the longest rendered start of it, else on the document; and
the panel of the document and of each rendered block shows, in the order of the report, those that name a member at or
under it. -/
theorem diagnosticsFor_anchor (rendered : Units → Bool) (diagnostics : List (Diagnostic δ))
    (hpaths : ∀ d ∈ diagnostics, ∃ path, d.named = pointer path) (container : List Units)
    (hcontainer : rendered (pointer container) = true ∨ container = []) :
    (∀ d ∈ diagnostics, ∃ path up, d.named = pointer path ∧ up <+: path ∧ (anchorOne rendered d).anchor = pointer up ∧
      (rendered (pointer up) = true ∨ up = []) ∧
        ∀ other, other <+: path → rendered (pointer other) = true → other <+: up) ∧
    (diagnosticsFor (anchor diagnostics rendered) (pointer container)).map (·.diagnostic) =
      diagnostics.filter fun d => under (pointer container) d.named := by
  have hdiagnostic : ∀ d : Diagnostic δ, (anchorOne rendered d).diagnostic = d := by
    intro d
    rw [anchorOne]
    split_ifs
    · rfl
    · split <;> rfl
  have hshown : ∀ d ∈ diagnostics, under (pointer container) (anchorOne rendered d).anchor =
      under (pointer container) d.named := by
    intro d hd
    obtain ⟨path, hpath⟩ := hpaths d hd
    obtain ⟨up, hup, hanchor, -, hmax, -⟩ := anchorOne_nearest rendered hpath
    rw [hanchor, hpath, Pointers.under_pointer, Pointers.under_pointer, Bool.eq_iff_iff, List.isPrefixOf_iff_prefix,
      List.isPrefixOf_iff_prefix]
    refine ⟨fun h => h.trans hup, fun h => ?_⟩
    obtain hr | rfl := hcontainer
    · exact hmax container h hr
    · exact List.nil_prefix
  refine ⟨fun d hd => ?_, ?_⟩
  · obtain ⟨path, hpath⟩ := hpaths d hd
    obtain ⟨up, hup, hanchor, hr, hmax, -⟩ := anchorOne_nearest rendered hpath
    exact ⟨path, up, hpath, hup, hanchor, hr, hmax⟩
  rw [diagnosticsFor, anchor, List.filter_map, List.map_map]
  have hid : (fun entry : AnchoredDiagnostic δ => entry.diagnostic) ∘ anchorOne rendered = id := funext hdiagnostic
  rw [hid, List.map_id]
  exact List.filter_congr fun d hd => hshown d hd

/-- A missing member of the first rule, and one of the eleventh, which is not rendered. -/
def sampleDiagnostics : List (Diagnostic Nat) :=
  [⟨some (wordText "/rules/0/when"), 0⟩, ⟨some (wordText "/rules/10"), 1⟩, ⟨none, 2⟩]

theorem diagnosticsFor_anchor_sample :
    ((diagnosticsFor (anchor sampleDiagnostics fun at_ => at_ == wordText "/rules/0") (wordText "/rules/0")).map
      (·.diagnostic.rest)) = [0] := by
  have hpaths : ∀ d ∈ sampleDiagnostics, ∃ path, d.named = pointer path := by
    intro d hd
    simp only [sampleDiagnostics, List.mem_cons, List.not_mem_nil, or_false] at hd
    obtain rfl | rfl | rfl := hd
    · exact ⟨[wordText "rules", wordText "0", wordText "when"], by decide⟩
    · exact ⟨[wordText "rules", wordText "10"], by decide⟩
    · exact ⟨[], rfl⟩
  have h := congrArg (List.map Diagnostic.rest) (diagnosticsFor_anchor (fun at_ => at_ == wordText "/rules/0")
    sampleDiagnostics hpaths [wordText "rules", wordText "0"] (.inl (by decide))).2
  rw [List.map_map] at h
  exact h.trans (by decide)

end Checks

end Desk
