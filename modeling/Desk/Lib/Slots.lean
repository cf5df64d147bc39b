import Mathlib.Data.List.Nodup
import Mathlib.Data.List.Pairwise

/-!
# Numbered slots

A history kept as several lists, every entry carrying its place in the whole.
`fill` writes the lists into a row of empty slots, refusing a number that is
not above the previous one of its list, is out of range or is taken. A full
row is the history, and the lists are its entries by kind (`fill_iff`).
-/

namespace Desk

namespace Slots

variable {α : Type} (seq : α → Nat)

def place (slots : List (Option α)) (last : Nat) (x : α) : Option (List (Option α)) :=
  if seq x ≤ last ∨ slots.length ≤ seq x ∨ (slots[seq x]?.join).isSome then none
  else some (slots.set (seq x) (some x))

def placeAll : List α → Nat → List (Option α) → Option (List (Option α))
  | [], _, slots => some slots
  | x :: rest, last, slots => (place seq slots last x).bind (placeAll rest (seq x))

def fill : List (List α) → List (Option α) → Option (List (Option α))
  | [], slots => some slots
  | l :: rest, slots => (placeAll seq l 0 slots).bind (fill rest)

/-- Every entry carries its place, counted from one. -/
def Numbered (history : List α) : Prop := ∀ i x, history[i]? = some x → seq x = i + 1

/-- The slots hold exactly the items, each at its number. -/
def Holds (slots : List (Option α)) (items : List α) : Prop :=
  ∀ k x, slots[k]? = some (some x) ↔ x ∈ items ∧ seq x = k

theorem holds_replicate (n : Nat) : Holds seq (List.replicate n none) [] := by
  intro k x
  constructor
  · intro h
    have := List.mem_of_getElem? h
    rw [List.mem_replicate] at this
    cases this.2
  · rintro ⟨h, _⟩; cases h

variable {seq}

theorem place_eq_some {slots slots' : List (Option α)} {last : Nat} {x : α} :
    place seq slots last x = some slots' ↔
      last < seq x ∧ slots[seq x]? = some none ∧ slots' = slots.set (seq x) (some x) := by
  unfold place
  constructor
  · intro h
    split at h
    · cases h
    · rename_i hc
      rw [not_or, not_or, Nat.not_le, Nat.not_le, Bool.not_eq_true, Option.isSome_eq_false_iff,
        Option.isNone_iff_eq_none] at hc
      obtain ⟨h₁, h₂, h₃⟩ := hc
      refine ⟨h₁, ?_, (Option.some.inj h).symm⟩
      rw [List.getElem?_eq_getElem h₂] at h₃ ⊢
      exact congrArg some h₃
  · rintro ⟨h₁, h₂, rfl⟩
    have hlt : seq x < slots.length := (List.getElem?_eq_some_iff.mp h₂).1
    rw [if_neg]
    rw [h₂]
    simp only [Option.join_some, Option.isSome_none, Bool.false_eq_true, or_false, not_or]
    omega

theorem length_place {slots slots' : List (Option α)} {last : Nat} {x : α}
    (h : place seq slots last x = some slots') : slots'.length = slots.length := by
  rw [(place_eq_some.mp h).2.2, List.length_set]

theorem holds_place {slots slots' : List (Option α)} {items : List α} {last : Nat} {x : α}
    (hs : Holds seq slots items) (h : place seq slots last x = some slots') :
    Holds seq slots' (items ++ [x]) := by
  obtain ⟨_, hfree, rfl⟩ := place_eq_some.mp h
  have hlt : seq x < slots.length := (List.getElem?_eq_some_iff.mp hfree).1
  intro k y
  rw [List.getElem?_set, List.mem_append, List.mem_singleton]
  by_cases hk : seq x = k
  · subst hk
    rw [if_pos rfl, if_pos hlt]
    constructor
    · rintro h; cases h; exact ⟨Or.inr rfl, rfl⟩
    · rintro ⟨hy | rfl, hseq⟩
      · have := (hs (seq x) y).mpr ⟨hy, hseq⟩
        rw [hfree] at this; cases this
      · rfl
  · rw [if_neg hk, hs k y]
    constructor
    · exact fun h => ⟨Or.inl h.1, h.2⟩
    · rintro ⟨hy | rfl, hseq⟩
      · exact ⟨hy, hseq⟩
      · exact absurd hseq hk

/-- A refused number aside, placing a list only adds its items. -/
theorem placeAll_spec {l : List α} {last : Nat} {slots slots' : List (Option α)} {items : List α}
    (hs : Holds seq slots items) (h : placeAll seq l last slots = some slots') :
    slots'.length = slots.length ∧ Holds seq slots' (items ++ l) ∧
      l.Pairwise (fun x y => seq x < seq y) ∧ ∀ x ∈ l, last < seq x := by
  induction l generalizing last slots items with
  | nil =>
    cases h
    exact ⟨rfl, by rwa [List.append_nil], List.Pairwise.nil, fun _ h => absurd h List.not_mem_nil⟩
  | cons x rest ih =>
    obtain ⟨mid, hmid, hrest⟩ := Option.bind_eq_some_iff.mp h
    obtain ⟨hlen, hholds, hpair, hlast⟩ := ih (holds_place hs hmid) hrest
    refine ⟨hlen.trans (length_place hmid), ?_, List.pairwise_cons.mpr ⟨hlast, hpair⟩, ?_⟩
    · rwa [List.append_assoc] at hholds
    · intro y hy
      have hx := (place_eq_some.mp hmid).1
      rcases List.mem_cons.mp hy with rfl | hy
      · exact hx
      · exact Nat.lt_trans hx (hlast y hy)

theorem fill_spec {lists : List (List α)} {slots slots' : List (Option α)} {items : List α}
    (hs : Holds seq slots items) (h : fill seq lists slots = some slots') :
    slots'.length = slots.length ∧ Holds seq slots' (items ++ lists.flatten) ∧
      ∀ l ∈ lists, l.Pairwise (fun x y => seq x < seq y) ∧ ∀ x ∈ l, 0 < seq x := by
  induction lists generalizing slots items with
  | nil => cases h; exact ⟨rfl, by rwa [List.flatten_nil, List.append_nil], fun _ h => absurd h List.not_mem_nil⟩
  | cons l rest ih =>
    obtain ⟨mid, hmid, hrest⟩ := Option.bind_eq_some_iff.mp h
    obtain ⟨hlen, hholds, hl⟩ := placeAll_spec hs hmid
    obtain ⟨hlen', hholds', hrest'⟩ := ih hholds hrest
    refine ⟨hlen'.trans hlen, ?_, ?_⟩
    · rwa [List.append_assoc, ← List.flatten_cons] at hholds'
    · intro l' hl'
      rcases List.mem_cons.mp hl' with rfl | hl'
      · exact hl
      · exact hrest' l' hl'

theorem place_of_free {slots : List (Option α)} {last : Nat} {x : α} (h : last < seq x)
    (hf : slots[seq x]? = some none) : place seq slots last x = some (slots.set (seq x) (some x)) :=
  place_eq_some.mpr ⟨h, hf, rfl⟩

theorem free_of_holds {slots : List (Option α)} {items : List α} {x : α} (hs : Holds seq slots items)
    (hlt : seq x < slots.length) (hx : ∀ y ∈ items, seq y ≠ seq x) : slots[seq x]? = some none := by
  rw [List.getElem?_eq_getElem hlt]
  cases hv : slots[seq x] with
  | none => rfl
  | some y =>
    have := (hs (seq x) y).mp (by rw [List.getElem?_eq_getElem hlt, hv])
    exact absurd this.2 (hx y this.1)

theorem placeAll_complete (last : Nat) {l : List α} {slots : List (Option α)} {items : List α}
    (hs : Holds seq slots items) (hp : l.Pairwise fun x y => seq x < seq y) (hlast : ∀ x ∈ l, last < seq x)
    (hlt : ∀ x ∈ l, seq x < slots.length) (hne : ∀ x ∈ l, ∀ y ∈ items, seq y ≠ seq x) :
    ∃ slots', placeAll seq l last slots = some slots' := by
  induction l generalizing last slots items with
  | nil => exact ⟨slots, rfl⟩
  | cons x rest ih =>
    obtain ⟨hx, hp⟩ := List.pairwise_cons.mp hp
    have hfree := free_of_holds hs (hlt x List.mem_cons_self) (hne x List.mem_cons_self)
    have hpl := place_of_free (hlast x List.mem_cons_self) hfree
    obtain ⟨slots', h⟩ := ih (seq x) (holds_place hs hpl) hp hx
      (fun y hy => by rw [List.length_set]; exact hlt y (List.mem_cons_of_mem _ hy))
      (fun y hy z hz => by
        rcases List.mem_append.mp hz with hz | hz
        · exact hne y (List.mem_cons_of_mem _ hy) z hz
        · rw [List.mem_singleton.mp hz]
          exact Nat.ne_of_lt (hx y hy))
    exact ⟨slots', by rw [placeAll, hpl]; exact h⟩

/-- Two lists in the order of their numbers with the same members are equal. -/
theorem eq_of_ordered {l₁ l₂ : List α} (h₁ : l₁.Pairwise fun x y => seq x < seq y)
    (h₂ : l₂.Pairwise fun x y => seq x < seq y) (h : ∀ x, x ∈ l₁ ↔ x ∈ l₂) : l₁ = l₂ := by
  have irr : ∀ x y : α, seq x < seq y → x ≠ y := by rintro x _ hxy rfl; exact Nat.lt_irrefl _ hxy
  have hp : l₁.Perm l₂ := (List.perm_ext_iff_of_nodup (h₁.imp (irr _ _)) (h₂.imp (irr _ _))).mpr h
  refine hp.eq_of_pairwise (fun x y _ _ hxy hyx => ?_) h₁ h₂
  exact absurd hxy (Nat.not_lt_of_lt hyx)

theorem Numbered.pairwise {history : List α} (h : Numbered seq history) :
    history.Pairwise fun x y => seq x < seq y := by
  rw [List.pairwise_iff_getElem]
  intro i j hi hj hij
  rw [h i _ (List.getElem?_eq_getElem hi), h j _ (List.getElem?_eq_getElem hj)]
  omega

theorem Numbered.mem {history : List α} (h : Numbered seq history) {x : α} (hx : x ∈ history) :
    0 < seq x ∧ seq x ≤ history.length ∧ history[seq x - 1]? = some x := by
  obtain ⟨i, hi⟩ := List.mem_iff_getElem?.mp hx
  have hlt : i < history.length := (List.getElem?_eq_some_iff.mp hi).1
  rw [h i x hi]
  exact ⟨by omega, by omega, by simpa using hi⟩

theorem Numbered.inj {history : List α} (h : Numbered seq history) {x y : α} (hx : x ∈ history)
    (hy : y ∈ history) (he : seq x = seq y) : x = y := by
  have h₁ := (h.mem hx).2.2
  have h₂ := (h.mem hy).2.2
  rw [he, h₂] at h₁
  exact (Option.some.inj h₁).symm

theorem Numbered.append {history : List α} (h : Numbered seq history) {x : α}
    (hx : seq x = history.length + 1) : Numbered seq (history ++ [x]) := by
  intro i y hy
  rw [List.getElem?_append] at hy
  split at hy
  · exact h i y hy
  · rename_i hlt
    have hi : i - history.length = 0 := by
      have := (List.getElem?_eq_some_iff.mp hy).1
      simpa using this
    rw [hi] at hy
    cases hy
    omega

section
variable {κ : Type} [DecidableEq κ] (kind : α → κ) (kinds : List κ)

/-- The entries of a numbered history, kind by kind, fill its row of slots, and only they do. -/
theorem fill_iff (hk : kinds.Nodup) (hall : ∀ x : α, kind x ∈ kinds) {lists : κ → List α}
    (hkind : ∀ k, ∀ x ∈ lists k, kind x = k) {history : List α} :
    fill seq (kinds.map lists) (List.replicate (history.length + 1) none) = some (none :: history.map some) ↔
      Numbered seq history ∧ ∀ k ∈ kinds, lists k = history.filter (kind · = k) := by
  have hmem : ∀ x, x ∈ (kinds.map lists).flatten ↔ x ∈ lists (kind x) := by
    intro x
    rw [List.mem_flatten]
    constructor
    · rintro ⟨l, hl, hx⟩
      obtain ⟨k, _, rfl⟩ := List.mem_map.mp hl
      rwa [hkind k x hx]
    · exact fun hx => ⟨_, List.mem_map.mpr ⟨kind x, hall x, rfl⟩, hx⟩
  constructor
  · intro h
    obtain ⟨_, hholds, hord⟩ := fill_spec (holds_replicate seq _) h
    rw [List.nil_append] at hholds
    have hslot : ∀ i x, history[i]? = some x ↔ x ∈ lists (kind x) ∧ seq x = i + 1 := by
      intro i x
      rw [← hmem, ← hholds (i + 1) x, List.getElem?_cons_succ, List.getElem?_map]
      simp
    have hnum : Numbered seq history := fun i x hx => ((hslot i x).mp hx).2
    refine ⟨hnum, fun k hk => ?_⟩
    obtain ⟨hp, hpos⟩ := hord (lists k) (List.mem_map.mpr ⟨k, hk, rfl⟩)
    refine eq_of_ordered hp (hnum.pairwise.filter _) fun x => ?_
    rw [List.mem_filter, decide_eq_true_eq]
    constructor
    · intro hx
      have hkx := hkind k x hx
      have hs := (hslot (seq x - 1) x).mpr ⟨by rwa [hkx], by have := hpos x hx; omega⟩
      exact ⟨List.mem_of_getElem? hs, hkx⟩
    · rintro ⟨hx, rfl⟩
      obtain ⟨i, hi⟩ := List.mem_iff_getElem?.mp hx
      exact ((hslot i x).mp hi).1
  · rintro ⟨hnum, hlists⟩
    -- every list is placed after lists of other kinds, so its slots are still free
    have step : ∀ (ks done : List κ) (slots : List (Option α)), (done ++ ks).Nodup → (∀ k ∈ ks, k ∈ kinds) →
        (∀ k ∈ done, k ∈ kinds) → slots.length = history.length + 1 →
        Holds seq slots (done.map lists).flatten →
        ∃ slots', fill seq (ks.map lists) slots = some slots' := by
      intro ks
      induction ks with
      | nil => exact fun _ slots _ _ _ _ _ => ⟨slots, rfl⟩
      | cons k ks ih =>
        intro done slots hnd hks hdone hlen hholds
        have hk' := hlists k (hks k List.mem_cons_self)
        have hin : ∀ x ∈ lists k, x ∈ history := fun x hx => by
          rw [hk'] at hx; exact (List.mem_filter.mp hx).1
        have hp : (lists k).Pairwise fun x y => seq x < seq y := by
          rw [hk']; exact hnum.pairwise.filter _
        obtain ⟨mid, hmid⟩ := placeAll_complete 0 hholds hp (fun x hx => (hnum.mem (hin x hx)).1)
          (fun x hx => by have := (hnum.mem (hin x hx)).2.1; omega)
          (fun x hx y hy he => by
            obtain ⟨l, hl, hyl⟩ := List.mem_flatten.mp hy
            obtain ⟨d, hd, rfl⟩ := List.mem_map.mp hl
            have hyh : y ∈ history := by
              rw [hlists d (hdone d hd)] at hyl; exact (List.mem_filter.mp hyl).1
            have : y = x := hnum.inj hyh (hin x hx) he
            rw [this] at hyl
            have hdk : d = k := (hkind d x hyl).symm.trans (hkind k x hx)
            exact (List.nodup_append.mp hnd).2.2 d hd k List.mem_cons_self hdk)
        obtain ⟨hlen', hholds', _⟩ := placeAll_spec hholds hmid
        obtain ⟨slots', h⟩ := ih (done ++ [k]) mid (by rwa [List.append_assoc])
          (fun k' hk'' => hks k' (List.mem_cons_of_mem _ hk''))
          (fun k' hk'' => by
            rcases List.mem_append.mp hk'' with h | h
            · exact hdone k' h
            · rw [List.mem_singleton.mp h]; exact hks k List.mem_cons_self)
          (hlen'.trans hlen) (by simpa using hholds')
        exact ⟨slots', by rw [List.map_cons, fill, hmid]; exact h⟩
    obtain ⟨slots, h⟩ := step kinds [] (List.replicate (history.length + 1) none) (by simpa using hk)
      (fun _ h => h) (fun _ h => absurd h List.not_mem_nil) List.length_replicate (holds_replicate seq _)
    obtain ⟨hlen, hholds, _⟩ := fill_spec (holds_replicate seq _) h
    rw [List.length_replicate] at hlen
    rw [List.nil_append] at hholds
    rw [h]
    congr 1
    refine List.ext_getElem? fun i => ?_
    have hread : ∀ x, slots[i]? = some (some x) ↔ x ∈ history ∧ seq x = i := by
      intro x
      rw [hholds i x, hmem, hlists _ (hall x), List.mem_filter]
      simp
    rcases i with _ | i
    · rw [List.getElem?_cons_zero, List.getElem?_eq_getElem (by omega)]
      cases hv : slots[0] with
      | none => rfl
      | some x =>
        obtain ⟨hx, h0⟩ := (hread x).mp (by rw [List.getElem?_eq_getElem (by omega), hv])
        have := (hnum.mem hx).1
        omega
    · rw [List.getElem?_cons_succ, List.getElem?_map]
      cases hv : history[i]? with
      | none =>
        have : history.length ≤ i := List.getElem?_eq_none_iff.mp hv
        rw [List.getElem?_eq_none (by omega)]; rfl
      | some x =>
        exact (hread x).mpr ⟨List.mem_of_getElem? hv, hnum i x hv⟩

end

end Slots

end Desk
