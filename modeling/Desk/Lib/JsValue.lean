import Desk.Lib.JsonTree

/-!
# Values of a script

A value as a script holds it: an array has a length and properties of its own,
which need not be its elements. A JSON round trip leaves a value unchanged when
it is plain (`Plain`).
-/

namespace Desk

inductive JsValue (ν : Type) where
  | null
  | bool (b : Bool)
  | num (n : ν)
  | str (s : Units)
  | arr (length : UInt32) (own : List (Units × JsValue ν))
  | obj (own : List (Units × JsValue ν))

namespace JsValue

variable {ν : Type}

abbrev Own (ν : Type) : Type := List (Units × JsValue ν)

def lengthName : Units := wordText "length"

/-- An array index as a property name: what a number below 2³² - 1 is written as. -/
def arrayIndex (name : Units) : Option Nat :=
  if natText (digitsValue name) = name ∧ digitsValue name < 4294967295 then some (digitsValue name) else none

/-! ## The round trip -/

/-- The elements among the properties, `null` in the place of one that is missing. -/
def elements (length : Nat) (own : Own ν) : Own ν :=
  (List.range length).map fun i => (natText i, (own.lookup (natText i)).getD null)

mutual

/-- `JSON.parse(JSON.stringify(v))`. -/
def roundTrip : JsValue ν → JsValue ν
  | null => null
  | bool b => bool b
  | num n => num n
  | str s => str s
  | arr length own => arr length (elements length.toNat (roundTripOwn own))
  | obj own => obj (roundTripOwn own)

def roundTripOwn : Own ν → Own ν
  | [] => []
  | (name, v) :: rest => (name, roundTrip v) :: roundTripOwn rest

end

/-- A value that JSON carries unchanged. -/
def Plain (v : JsValue ν) : Prop := roundTrip v = v

/-! ## Properties -/

def isContainer : JsValue ν → Bool
  | arr _ _ | obj _ => true
  | _ => false

def put (name : Units) (x : JsValue ν) : Own ν → Own ν
  | [] => [(name, x)]
  | (n, y) :: rest => if n = name then (name, x) :: rest else (n, y) :: put name x rest

def erase (name : Units) (own : Own ν) : Own ν := own.filter fun p => p.1 ≠ name

/-- What numbers, and texts and arrays read as numbers, are as the length of an array. -/
structure Lengths (ν : Type) where
  ofLength : UInt32 → ν
  asLength : ν → Option UInt32
  textLength : JsValue ν → Option UInt32
  asLength_ofLength : ∀ n, asLength (ofLength n) = some n

section
variable (N : Lengths ν)

/-- The length that a value is; an object is none. -/
def toLength : JsValue ν → Option UInt32
  | null => some 0
  | bool b => some (if b then 1 else 0)
  | num n => N.asLength n
  | str s => N.textLength (str s)
  | arr length own => N.textLength (arr length own)
  | obj _ => none

/-- The own property of a container. -/
def member (v : JsValue ν) (name : Units) : Option (JsValue ν) :=
  match v with
  | arr length own => if name = lengthName then some (num (N.ofLength length)) else own.lookup name
  | obj own => own.lookup name
  | _ => none

/-- `v[name] = x` of a container; `none` where the length of an array would be none. -/
def assign (v : JsValue ν) (name : Units) (x : JsValue ν) : Option (JsValue ν) :=
  match v with
  | arr length own =>
    if name = lengthName then
      (toLength N x).map fun m => arr m (own.filter fun p => (arrayIndex p.1).all fun i => i < m.toNat)
    else
      match arrayIndex name with
      | some i => some (arr (if length.toNat ≤ i then UInt32.ofNat (i + 1) else length) (put name x own))
      | none => some (arr length (put name x own))
  | obj own => some (obj (put name x own))
  | v => some v

/-- What is read under a value along names. -/
def reach (v : JsValue ν) : List Units → Option (JsValue ν)
  | [] => some v
  | name :: rest => (member N v name).bind fun child => child.reach rest

/-! ## What tells two values apart -/

/-- A value without what is under it. -/
inductive Head (ν : Type) where
  | null
  | bool (b : Bool)
  | num (n : ν)
  | str (s : Units)
  | arr (length : UInt32)
  | obj

def head : JsValue ν → Head ν
  | null => .null
  | bool b => .bool b
  | num n => .num n
  | str s => .str s
  | arr length _ => .arr length
  | obj _ => .obj

/-- The same, whatever the order of the properties: there is the same at every place. -/
def Same (a b : JsValue ν) : Prop := ∀ names, (a.reach N names).map head = (b.reach N names).map head

end

/-! ## Lookups -/

theorem lookup_pair (n k : Units) (y : JsValue ν) (rest : Own ν) :
    List.lookup k ((n, y) :: rest) = if k = n then some y else rest.lookup k := by
  rw [List.lookup_cons]
  by_cases hk : k = n
  · rw [if_pos hk, hk, beq_self_eq_true]
  · have hne : (k == n) = false := by simpa using hk
    rw [if_neg hk, hne]

theorem lookup_put (own : Own ν) (name k : Units) (x : JsValue ν) :
    (put name x own).lookup k = if k = name then some x else own.lookup k := by
  induction own with
  | nil => exact lookup_pair name k x []
  | cons p rest ih =>
    obtain ⟨n, y⟩ := p
    rw [put, lookup_pair]
    by_cases hn : n = name
    · rw [if_pos hn, lookup_pair, hn]
      by_cases hk : k = name
      · rw [if_pos hk, if_pos hk]
      · rw [if_neg hk, if_neg hk, if_neg hk]
    · rw [if_neg hn, lookup_pair, ih]
      by_cases hk : k = n
      · rw [if_pos hk, if_pos hk, if_neg fun heq => hn (hk.symm.trans heq)]
      · rw [if_neg hk, if_neg hk]

theorem lookup_erase (own : Own ν) (name k : Units) :
    (erase name own).lookup k = if k = name then none else own.lookup k := by
  induction own with
  | nil => simp [erase]
  | cons p rest ih =>
    obtain ⟨n, y⟩ := p
    rw [erase] at ih ⊢
    rw [List.filter_cons, lookup_pair]
    by_cases hn : n = name
    · rw [if_neg (by simpa using hn), ih, hn]
      by_cases hk : k = name
      · rw [if_pos hk, if_pos hk]
      · rw [if_neg hk, if_neg hk, if_neg hk]
    · rw [if_pos (by simpa using hn), lookup_pair, ih]
      by_cases hk : k = n
      · rw [if_pos hk, if_pos hk, if_neg fun heq => hn (hk.symm.trans heq)]
      · rw [if_neg hk, if_neg hk]

theorem mem_of_lookup {own : Own ν} {k : Units} {x : JsValue ν} (h : own.lookup k = some x) : (k, x) ∈ own := by
  induction own with
  | nil => cases h
  | cons p rest ih =>
    obtain ⟨n, y⟩ := p
    rw [lookup_pair] at h
    split at h
    · rename_i hk
      rw [hk, Option.some.inj h]
      exact List.mem_cons_self
    · exact List.mem_cons_of_mem _ (ih h)

theorem lookup_of_mem {own : Own ν} (hn : (own.map Prod.fst).Nodup) {k : Units} {x : JsValue ν} (h : (k, x) ∈ own) :
    own.lookup k = some x := by
  induction own with
  | nil => cases h
  | cons p rest ih =>
    obtain ⟨n, y⟩ := p
    rw [List.map_cons, List.nodup_cons] at hn
    rw [lookup_pair]
    rcases List.mem_cons.mp h with heq | hmem
    · obtain ⟨rfl, rfl⟩ := Prod.mk.inj heq
      exact if_pos rfl
    · have hfst : k ∈ rest.map Prod.fst := List.mem_map_of_mem (f := Prod.fst) hmem
      rw [if_neg (fun heq : k = n => hn.1 (heq ▸ hfst))]
      exact ih hn.2 hmem

theorem mem_put {own : Own ν} {name : Units} {x : JsValue ν} {p : Units × JsValue ν} (h : p ∈ put name x own) :
    p = (name, x) ∨ p ∈ own := by
  induction own with
  | nil => exact Or.inl (List.mem_singleton.mp h)
  | cons q rest ih =>
    obtain ⟨n, y⟩ := q
    rw [put] at h
    split at h
    · rcases List.mem_cons.mp h with h | h
      · exact Or.inl h
      · exact Or.inr (List.mem_cons_of_mem _ h)
    · rcases List.mem_cons.mp h with h | h
      · exact Or.inr (h ▸ List.mem_cons_self)
      · exact (ih h).imp_right (List.mem_cons_of_mem _)

theorem put_new {own : Own ν} {name : Units} (h : name ∉ own.map Prod.fst) (x : JsValue ν) :
    put name x own = own ++ [(name, x)] := by
  induction own with
  | nil => rfl
  | cons p rest ih =>
    obtain ⟨n, y⟩ := p
    rw [List.map_cons, List.mem_cons, not_or] at h
    rw [put, if_neg (Ne.symm h.1), ih h.2, List.cons_append]

theorem names_put {own : Own ν} {name : Units} (h : name ∈ own.map Prod.fst) (x : JsValue ν) :
    (put name x own).map Prod.fst = own.map Prod.fst := by
  induction own with
  | nil => cases h
  | cons p rest ih =>
    obtain ⟨n, y⟩ := p
    rw [put]
    split
    · rename_i hn
      rw [List.map_cons, List.map_cons, hn]
    · rename_i hn
      rcases List.mem_cons.mp h with heq | h
      · exact absurd heq.symm hn
      · rw [List.map_cons, List.map_cons, ih h]

theorem put_put (own : Own ν) (name : Units) (x y : JsValue ν) : put name y (put name x own) = put name y own := by
  induction own with
  | nil => simp [put]
  | cons p rest ih =>
    obtain ⟨n, z⟩ := p
    rw [put, put]
    split
    · rw [put, if_pos rfl]
    · rename_i hn
      rw [put, if_neg hn, ih]

/-! ## Plain values -/

theorem roundTripOwn_eq (own : Own ν) : roundTripOwn own = own.map fun p => (p.1, roundTrip p.2) := by
  induction own with
  | nil => rw [roundTripOwn, List.map_nil]
  | cons p rest ih =>
    obtain ⟨n, y⟩ := p
    rw [roundTripOwn, ih, List.map_cons]

theorem roundTripOwn_eq_self {own : Own ν} : roundTripOwn own = own ↔ ∀ p ∈ own, Plain p.2 := by
  rw [roundTripOwn_eq]
  constructor
  · intro h p hp
    have hmap : own.map (fun p => (p.1, roundTrip p.2)) = own.map id := h.trans (List.map_id own).symm
    exact congrArg Prod.snd (List.map_inj_left.mp hmap p hp)
  · intro h
    refine (List.map_congr_left fun p hp => ?_).trans (List.map_id own)
    exact congrArg (Prod.mk p.1) (h p hp)

theorem lookup_roundTripOwn (own : Own ν) (k : Units) : (roundTripOwn own).lookup k = (own.lookup k).map roundTrip := by
  rw [roundTripOwn_eq]
  induction own with
  | nil => rfl
  | cons p rest ih =>
    obtain ⟨n, y⟩ := p
    rw [List.map_cons, lookup_pair, lookup_pair, ih, apply_ite (Option.map roundTrip)]
    rfl

theorem plain_obj {own : Own ν} : Plain (obj own) ↔ ∀ p ∈ own, Plain p.2 := by
  rw [Plain, roundTrip, obj.injEq, roundTripOwn_eq_self]

theorem map_fst_elements (n : Nat) (own : Own ν) : (elements n own).map Prod.fst = (List.range n).map natText := by
  rw [elements, List.map_map]
  rfl

theorem nodup_indices (n : Nat) : ((List.range n).map natText).Nodup :=
  List.Nodup.map (fun _ _ h => natText_injective h) List.nodup_range

/-- A list with the indices for names is made of the elements that it has. -/
theorem elements_self {n : Nat} {own : Own ν} (h : own.map Prod.fst = (List.range n).map natText) : elements n own = own := by
  have hlookup : ∀ p ∈ own, (own.lookup p.1).getD null = p.2 := by
    intro p hp
    rw [lookup_of_mem (h ▸ nodup_indices n) hp, Option.getD_some]
  calc elements n own
      = ((List.range n).map natText).map fun name => (name, (own.lookup name).getD null) := by
        rw [elements, List.map_map]
        rfl
    _ = own.map fun p => (p.1, (own.lookup p.1).getD null) := by
        rw [← h, List.map_map]
        rfl
    _ = own.map id := List.map_congr_left fun p hp => congrArg (Prod.mk p.1) (hlookup p hp)
    _ = own := List.map_id own

theorem plain_arr {length : UInt32} {own : Own ν} : Plain (arr length own) ↔
    own.map Prod.fst = (List.range length.toNat).map natText ∧ ∀ p ∈ own, Plain p.2 := by
  rw [Plain, roundTrip, arr.injEq]
  constructor
  · rintro ⟨-, h⟩
    have hnames : own.map Prod.fst = (List.range length.toNat).map natText := by
      rw [← h, map_fst_elements]
    refine ⟨hnames, fun p hp => ?_⟩
    have hlookup := lookup_of_mem (hnames ▸ nodup_indices _) hp
    rw [← h, elements] at hp
    obtain ⟨i, -, rfl⟩ := List.mem_map.mp hp
    dsimp only at hlookup ⊢
    rw [lookup_roundTripOwn] at hlookup ⊢
    cases hx : own.lookup (natText i) with
    | none =>
      rw [hx] at hlookup
      cases hlookup
    | some x =>
      rw [hx] at hlookup
      have hval := Option.some.inj hlookup
      rw [Option.map_some, Option.getD_some] at hval ⊢
      rw [← hval, Plain, ← hval]
  · rintro ⟨hnames, hplain⟩
    rw [roundTripOwn_eq_self.mpr hplain]
    exact ⟨rfl, elements_self hnames⟩

theorem plain_erase {own : Own ν} (h : Plain (obj own)) (name : Units) : Plain (obj (erase name own)) :=
  plain_obj.mpr fun p hp => plain_obj.mp h p (List.mem_of_mem_filter hp)

theorem plain_member (N : Lengths ν) {v c : JsValue ν} {name : Units} (hv : Plain v) (h : member N v name = some c) : Plain c := by
  cases v with
  | arr length own =>
    rw [member] at h
    split at h
    · rw [← Option.some.inj h, Plain, roundTrip]
    · exact (plain_arr.mp hv).2 _ (mem_of_lookup h)
  | obj own => exact plain_obj.mp hv _ (mem_of_lookup h)
  | null => cases h
  | bool b => cases h
  | num n => cases h
  | str s => cases h

/-! ## Names of elements -/

theorem natText_ne_length (i : Nat) : natText i ≠ lengthName := by
  intro h
  have hdigit := natText_digits i (unit 'l')
  rw [h] at hdigit
  exact absurd (hdigit (by decide)) (by decide)

theorem arrayIndex_natText {i : Nat} (h : i < 4294967295) : arrayIndex (natText i) = some i := by
  rw [arrayIndex, digitsValue_natText, if_pos ⟨rfl, h⟩]

theorem arrayIndex_eq_some {name : Units} {i : Nat} (h : arrayIndex name = some i) : name = natText i ∧ i < 4294967295 := by
  unfold arrayIndex at h
  split at h
  · rename_i hname
    rw [← Option.some.inj h]
    exact ⟨hname.1.symm, hname.2⟩
  · cases h

/-! ## One property set -/

/-- A property that can be set with no trace elsewhere: of an object, or an element that is there. -/
def Enters (v : JsValue ν) (name : Units) : Prop :=
  match v with
  | arr length _ => ∃ i < length.toNat, name = natText i
  | obj _ => True
  | _ => False

def replaced (v : JsValue ν) (name : Units) (x : JsValue ν) : JsValue ν :=
  match v with
  | arr length own => arr length (put name x own)
  | obj own => obj (put name x own)
  | v => v

theorem index_lt {length : UInt32} {i : Nat} (h : i < length.toNat) : i < 4294967295 :=
  Nat.lt_of_lt_of_le h (Nat.le_of_lt_succ length.toNat_lt)

theorem mem_names {length : UInt32} {own : Own ν} (hv : Plain (arr length own)) {i : Nat} :
    natText i ∈ own.map Prod.fst ↔ i < length.toNat := by
  rw [(plain_arr.mp hv).1, List.mem_map]
  constructor
  · rintro ⟨j, hj, heq⟩
    rw [← natText_injective heq]
    exact List.mem_range.mp hj
  · exact fun h => ⟨i, List.mem_range.mpr h, rfl⟩

section
variable (N : Lengths ν)

theorem assign_entered {v : JsValue ν} {name : Units} (h : Enters v name) (x : JsValue ν) :
    assign N v name x = some (replaced v name x) := by
  cases v with
  | arr length own =>
    obtain ⟨i, hi, rfl⟩ := h
    rw [assign, if_neg (natText_ne_length i), arrayIndex_natText (index_lt hi)]
    dsimp only
    rw [if_neg (Nat.not_le_of_lt hi), replaced]
  | obj own => rfl
  | null => cases h
  | bool b => cases h
  | num n => cases h
  | str s => cases h

theorem member_replaced {v : JsValue ν} {name : Units} (h : Enters v name) (x : JsValue ν) (k : Units) :
    member N (replaced v name x) k = if k = name then some x else member N v k := by
  cases v with
  | arr length own =>
    obtain ⟨i, hi, rfl⟩ := h
    rw [replaced, member, member, lookup_put]
    by_cases hk : k = lengthName
    · rw [if_pos hk, if_pos hk, if_neg fun heq => natText_ne_length i (heq.symm.trans hk)]
    · rw [if_neg hk, if_neg hk]
  | obj own => exact lookup_put own name k x
  | null => cases h
  | bool b => cases h
  | num n => cases h
  | str s => cases h

theorem plain_replaced {v x : JsValue ν} {name : Units} (h : Enters v name) (hv : Plain v) (hx : Plain x) :
    Plain (replaced v name x) := by
  cases v with
  | arr length own =>
    obtain ⟨i, hi, rfl⟩ := h
    refine plain_arr.mpr ⟨?_, fun p hp => ?_⟩
    · rw [names_put ((mem_names hv).mpr hi), (plain_arr.mp hv).1]
    · rcases mem_put hp with rfl | hp
      · exact hx
      · exact (plain_arr.mp hv).2 p hp
  | obj own =>
    refine plain_obj.mpr fun p hp => ?_
    rcases mem_put hp with rfl | hp
    · exact hx
    · exact plain_obj.mp hv p hp
  | null => cases h
  | bool b => cases h
  | num n => cases h
  | str s => cases h

theorem head_replaced (v : JsValue ν) (name : Units) (x : JsValue ν) : head (replaced v name x) = head v := by
  cases v <;> rfl

theorem enters_replaced (v : JsValue ν) (name : Units) (x : JsValue ν) : Enters (replaced v name x) name ↔ Enters v name := by
  cases v <;> rfl

theorem replaced_replaced (v : JsValue ν) (name : Units) (x y : JsValue ν) :
    replaced (replaced v name x) name y = replaced v name y := by
  cases v <;> simp [replaced, put_put]

/-! ## Places -/

theorem reach_nil (v : JsValue ν) : v.reach N [] = some v := by rw [reach]

theorem reach_cons (v : JsValue ν) (name : Units) (rest : List Units) :
    v.reach N (name :: rest) = (member N v name).bind fun child => child.reach N rest := by rw [reach]

/-- There is nothing under what is no container. -/
theorem reach_scalar {v : JsValue ν} (h : v.isContainer = false) {names : List Units} (hne : names ≠ []) :
    v.reach N names = none := by
  cases names with
  | nil => exact absurd rfl hne
  | cons name rest =>
    rw [reach_cons]
    cases v <;> first | rfl | cases h

theorem reach_empty {names : List Units} (hne : names ≠ []) : (obj [] : JsValue ν).reach N names = none := by
  cases names with
  | nil => exact absurd rfl hne
  | cons name rest =>
    rw [reach_cons]
    rfl

theorem same_refl (v : JsValue ν) : Same N v v := fun _ => rfl

/-- Values of one kind are the same when what is under them is. -/
theorem same_of_member {a b : JsValue ν} (hhead : head a = head b) (h : ∀ name rest,
    ((member N a name).bind fun child => child.reach N rest).map head =
      ((member N b name).bind fun child => child.reach N rest).map head) : Same N a b := by
  intro names
  cases names with
  | nil => rw [reach_nil, reach_nil, Option.map_some, Option.map_some, hhead]
  | cons name rest =>
    rw [reach_cons, reach_cons]
    exact h name rest

theorem same_replaced {v x y : JsValue ν} {name : Units} (h : Enters v name) (hxy : Same N x y) :
    Same N (replaced v name x) (replaced v name y) := by
  refine same_of_member N ?_ fun k rest => ?_
  · rw [head_replaced, head_replaced]
  · rw [member_replaced N h, member_replaced N h]
    by_cases hk : k = name
    · rw [if_pos hk, if_pos hk]
      exact hxy rest
    · rw [if_neg hk, if_neg hk]

/-- What is set after a removal is what is set at once, up to the order. -/
theorem same_put_erase (own : Own ν) (name : Units) (x : JsValue ν) :
    Same N (obj (put name x (erase name own))) (obj (put name x own)) := by
  refine same_of_member N rfl fun k rest => ?_
  rw [member, member, lookup_put, lookup_put, lookup_erase]
  by_cases hk : k = name
  · rw [if_pos hk, if_pos hk]
  · rw [if_neg hk, if_neg hk, if_neg hk]

/-! ## The length of an array -/

theorem ofLength_injective {m n : UInt32} (h : N.ofLength m = N.ofLength n) : m = n := by
  have hm := N.asLength_ofLength m
  rw [h, N.asLength_ofLength] at hm
  exact (Option.some.inj hm).symm

/-- An array keeps its elements when its own length is set. -/
theorem assign_length {length : UInt32} {own : Own ν} (hv : Plain (arr length own)) :
    assign N (arr length own) lengthName (num (N.ofLength length)) = some (arr length own) := by
  rw [assign, if_pos rfl, toLength, N.asLength_ofLength, Option.map_some, List.filter_eq_self.mpr]
  intro p hp
  have hname : p.1 ∈ own.map Prod.fst := List.mem_map_of_mem hp
  rw [(plain_arr.mp hv).1] at hname
  obtain ⟨i, hi, heq⟩ := List.mem_map.mp hname
  rw [← heq, arrayIndex_natText (index_lt (List.mem_range.mp hi)), Option.all_some]
  exact decide_eq_true (List.mem_range.mp hi)

end

end JsValue

end Desk
