import Desk.Packs.Pointers
import Desk.Suites.FactPointers

/-!
# One fact is edited

What `pointerSet` returns keeps the laws of an edit (`Edited`) exactly when every
array on the way is entered at an element that it has (`Fits`).
-/

namespace Desk.FactPointers

open JsValue

section
variable {ν : Type} (N : Lengths ν)

/-- The tokens of what is a pointer. -/
def pointerKeys (path : Units) : Option (List Units) :=
  if path = [] then some [] else if path.head? ≠ some (unit '/') then none else some (tokens path)

/-- What is no pointer, or one that does not lead along the other. -/
def Apart (path q : Units) : Prop := ∀ keys, pointerKeys q = some keys → ¬ tokens path <+: keys ∧ ¬ keys <+: tokens path

/-- Both return the same, or refuse alike. -/
def SameOutcome (a b : Except PointerError (JsValue ν)) : Prop :=
  match a, b with
  | .ok a, .ok b => Same N a b
  | .error e, .error e' => e = e'
  | _, _ => False

/-- What setting a value at a pointer gives. -/
structure Edited (root : JsValue ν) (path : Units) (value : Option (JsValue ν)) (result : JsValue ν) : Prop where
  plain : Plain result
  reads : pointerGet N result path = value
  frame : ∀ q, Apart path q → pointerGet N result q = pointerGet N root q
  /-- What is new on the way is an object. -/
  made : ∀ q keys, pointerKeys q = some keys → keys <+: tokens path → keys ≠ tokens path → pointerGet N root q = none →
    ∀ c, pointerGet N result q = some c → ∃ own, c = obj own
  twice : ∀ w, SameOutcome N (pointerSet N result path w) (pointerSet N root path w)

/-- Whether the walk enters arrays only where they have an element, or ends at the length that an array has; it may also
run into what the engine refuses, a length that is none. -/
def Fits : List Units → JsValue ν → Option (JsValue ν) → Prop
  | [key], arr length own, some x =>
    Enters (arr length own) key ∨ key = lengthName ∧ (toLength N x = none ∨ x = num (N.ofLength length))
  | key :: next :: rest, arr length own, value =>
    key = lengthName ∨ Enters (arr length own) key ∧ Fits (next :: rest) (child N (arr length own) key) value
  | key :: next :: rest, obj own, value => Fits (next :: rest) (child N (obj own) key) value
  | _, _, _ => True

variable {N}

/-! ## Walks -/

theorem isContainer_cases {v : JsValue ν} (h : v.isContainer = true) :
    (∃ length own, v = arr length own) ∨ ∃ own, v = obj own := by
  cases v with
  | arr length own => exact Or.inl ⟨length, own, rfl⟩
  | obj own => exact Or.inr ⟨own, rfl⟩
  | null => cases h
  | bool b => cases h
  | num n => cases h
  | str s => cases h

theorem isContainer_child (at_ : JsValue ν) (key : Units) : (child N at_ key).isContainer = true := by
  unfold child
  split
  · split
    · assumption
    · rfl
  · rfl

theorem isContainer_of_head {a b : JsValue ν} (h : head a = head b) : a.isContainer = b.isContainer := by
  cases a <;> cases b <;> first | rfl | cases h

theorem plain_empty : Plain (obj [] : JsValue ν) := plain_obj.mpr nofun

theorem plain_child {at_ : JsValue ν} (h : Plain at_) (key : Units) : Plain (child N at_ key) := by
  unfold child
  split
  · rename_i below hget
    split
    · exact plain_member N h hget
    · exact plain_empty
  · exact plain_empty

/-- Under a child there is what is under the property. -/
theorem reach_child (at_ : JsValue ν) (key : Units) {names : List Units} (hne : names ≠ []) :
    (child N at_ key).reach N names = (member N at_ key).bind fun below => below.reach N names := by
  unfold child
  split
  · rename_i below hget
    rw [hget, Option.bind_some]
    split
    · rfl
    · rename_i hscalar
      rw [reach_empty N hne, reach_scalar N (Bool.not_eq_true _ ▸ hscalar) hne]
  · rename_i hget
    rw [hget, reach_empty N hne]
    rfl

theorem child_new {at_ : JsValue ν} {key : Units} (h : member N at_ key = none) : child N at_ key = obj [] := by
  rw [child, h]

theorem store_eq_ok {at_ r x : JsValue ν} {key : Units} (h : store N at_ key x = .ok r) : assign N at_ key x = some r := by
  unfold store at h
  split at h
  · rename_i v hv
    rw [hv, Except.ok.inj h]
  · cases h

theorem store_entered {at_ : JsValue ν} {key : Units} (h : Enters at_ key) (x : JsValue ν) :
    store N at_ key x = .ok (replaced at_ key x) := by
  rw [store, assign_entered N h]

theorem child_length (length : UInt32) (own : Own ν) : child N (arr length own) lengthName = obj [] := by
  rw [child, member, if_pos rfl]
  rfl

theorem store_length (length : UInt32) (own own' : Own ν) :
    store N (arr length own) lengthName (obj own') = .error .invalidLength := by
  rw [store, assign, if_pos rfl]
  rfl

/-- An object stays one. -/
theorem setAt_obj {keys : List Units} {own : Own ν} {value : Option (JsValue ν)} {r : JsValue ν}
    (h : setAt N keys (obj own) value = .ok r) : ∃ own', r = obj own' := by
  have hstore : ∀ {key x r}, store N (obj own) key x = .ok r → ∃ own', r = obj own' := by
    intro key x r h
    have hassign := store_eq_ok h
    rw [assign] at hassign
    exact ⟨_, (Option.some.inj hassign).symm⟩
  rcases keys with - | ⟨key, - | ⟨next, rest⟩⟩
  · rw [setAt] at h
    exact ⟨own, (Except.ok.inj h).symm⟩
  · cases value with
    | none =>
      rw [setAt] at h
      exact ⟨_, (Except.ok.inj h).symm⟩
    | some x =>
      rw [setAt] at h
      exact hstore h
  · rw [setAt] at h
    cases hbelow : setAt N (next :: rest) (child N (obj own) key) value with
    | error e =>
      rw [hbelow] at h
      cases h
    | ok below =>
      rw [hbelow] at h
      exact hstore h

/-! ## An edit that fits -/

/-- What setting a value along keys does, under one container. -/
structure EditedAt (N : Lengths ν) (at_ : JsValue ν) (keys : List Units) (value : Option (JsValue ν)) (r : JsValue ν) : Prop where
  plain : Plain r
  head_eq : head r = head at_
  reads : r.reach N keys = value
  frame : ∀ q, ¬ keys <+: q → ¬ q <+: keys → r.reach N q = at_.reach N q
  made : ∀ q, q <+: keys → q ≠ keys → at_.reach N q = none → ∀ c, r.reach N q = some c → ∃ own, c = obj own

/-- What is no prefix of one key and does not go on from it is at another key. -/
theorem apart_single {key : Units} {q : List Units} (h : ¬ [key] <+: q) (h' : ¬ q <+: [key]) :
    ∃ k rest, q = k :: rest ∧ k ≠ key := by
  cases q with
  | nil => exact absurd (List.nil_prefix) h'
  | cons k rest =>
    refine ⟨k, rest, rfl, ?_⟩
    rintro rfl
    exact h ⟨rest, rfl⟩

theorem proper_single {key : Units} {q : List Units} (h : q <+: [key]) (hne : q ≠ [key]) : q = [] := by
  cases q with
  | nil => rfl
  | cons k rest =>
    obtain ⟨rfl, hrest⟩ := List.cons_prefix_cons.mp h
    rw [List.prefix_nil.mp hrest] at hne
    exact absurd rfl hne

/-- The last key of an object, its property removed. -/
theorem edited_erase {own : Own ν} (hv : Plain (obj own)) (key : Units) :
    EditedAt N (obj own) [key] none (obj (erase key own)) where
  plain := plain_erase hv key
  head_eq := rfl
  reads := by
    rw [reach_cons, member, lookup_erase, if_pos rfl]
    rfl
  frame := by
    intro q h h'
    obtain ⟨k, rest, rfl, hk⟩ := apart_single h h'
    rw [reach_cons, reach_cons, member, member, lookup_erase, if_neg hk]
  made := by
    intro q h hne hnone
    rw [proper_single h hne, reach_nil] at hnone
    cases hnone

/-- The last key, set to a value. -/
theorem edited_replaced {at_ x : JsValue ν} {key : Units} (h : Enters at_ key) (hv : Plain at_) (hx : Plain x) :
    EditedAt N at_ [key] (some x) (replaced at_ key x) where
  plain := plain_replaced h hv hx
  head_eq := head_replaced at_ key x
  reads := by
    rw [reach_cons, member_replaced N h, if_pos rfl, Option.bind_some, reach_nil]
  frame := by
    intro q hq hq'
    obtain ⟨k, rest, rfl, hk⟩ := apart_single hq hq'
    rw [reach_cons, reach_cons, member_replaced N h, if_neg hk]
  made := by
    intro q hq hne hnone
    rw [proper_single hq hne, reach_nil] at hnone
    cases hnone

/-- The length of an array, set to what it is. -/
theorem edited_length {length : UInt32} {own : Own ν} (hv : Plain (arr length own)) :
    EditedAt N (arr length own) [lengthName] (some (num (N.ofLength length))) (arr length own) where
  plain := hv
  head_eq := rfl
  reads := by
    rw [reach_cons, member, if_pos rfl, Option.bind_some, reach_nil]
  frame := fun _ _ _ => rfl
  made := by
    intro q hq hne hnone
    rw [proper_single hq hne, reach_nil] at hnone
    cases hnone

/-- A key on the way, when what is below it is edited. -/
theorem edited_cons {at_ below : JsValue ν} {key next : Units} {rest : List Units} {value : Option (JsValue ν)}
    (h : Enters at_ key) (hv : Plain at_) (hbelow : EditedAt N (child N at_ key) (next :: rest) value below) 
    (hnew : member N at_ key = none → ∃ own, below = obj own) :
    EditedAt N at_ (key :: next :: rest) value (replaced at_ key below) where
  plain := plain_replaced h hv hbelow.plain
  head_eq := head_replaced at_ key below
  reads := by
    rw [reach_cons, member_replaced N h, if_pos rfl, Option.bind_some, hbelow.reads]
  frame := by
    intro q hq hq'
    cases q with
    | nil => exact absurd List.nil_prefix hq'
    | cons k q =>
      rw [reach_cons, reach_cons, member_replaced N h]
      by_cases hk : k = key
      · subst hk
        have hq : ¬ next :: rest <+: q := fun hp => hq (List.cons_prefix_cons.mpr ⟨rfl, hp⟩)
        have hq' : ¬ q <+: next :: rest := fun hp => hq' (List.cons_prefix_cons.mpr ⟨rfl, hp⟩)
        have hne : q ≠ [] := fun hnil => hq' (hnil ▸ List.nil_prefix)
        rw [if_pos rfl, Option.bind_some, hbelow.frame q hq hq', reach_child at_ k hne]
      · rw [if_neg hk]
  made := by
    intro q hq hne hnone c hc
    cases q with
    | nil =>
      rw [reach_nil] at hnone
      cases hnone
    | cons k q =>
      obtain ⟨rfl, hprefix⟩ := List.cons_prefix_cons.mp hq
      rw [reach_cons, member_replaced N h, if_pos rfl, Option.bind_some] at hc
      rw [reach_cons] at hnone
      by_cases hnil : q = []
      · subst hnil
        rw [reach_nil] at hc
        have hget : member N at_ k = none := by
          cases hg : member N at_ k with
          | none => rfl
          | some below =>
            rw [hg, Option.bind_some, reach_nil] at hnone
            cases hnone
        rw [← Option.some.inj hc]
        exact hnew hget
      · rw [← reach_child at_ k hnil] at hnone
        exact hbelow.made q hprefix (fun heq => hne (heq ▸ rfl)) hnone c hc

/-- A key on the way is entered where it fits and the walk ends. -/
theorem fits_cons {key next : Units} {rest : List Units} {at_ r : JsValue ν} {value : Option (JsValue ν)}
    (hc : at_.isContainer = true) (hfits : Fits N (key :: next :: rest) at_ value)
    (h : setAt N (key :: next :: rest) at_ value = .ok r) : Enters at_ key ∧ Fits N (next :: rest) (child N at_ key) value ∧
      ∃ below, setAt N (next :: rest) (child N at_ key) value = .ok below ∧ r = replaced at_ key below := by
  rw [setAt] at h
  cases hbelow : setAt N (next :: rest) (child N at_ key) value with
  | error e =>
    rw [hbelow] at h
    cases h
  | ok below =>
    rw [hbelow] at h
    have hstore : store N at_ key below = .ok r := h
    have hgo : Enters at_ key ∧ Fits N (next :: rest) (child N at_ key) value := by
      rcases isContainer_cases hc with ⟨length, own, rfl⟩ | ⟨own, rfl⟩
      · rcases hfits with rfl | hfits
        · -- the length of an array is no container, and no object is a length
          rw [child_length] at hbelow
          obtain ⟨own', rfl⟩ := setAt_obj hbelow
          cases hstore.symm.trans (store_length length own own')
        · exact hfits
      · exact ⟨trivial, hfits⟩
    rw [store_entered hgo.1] at hstore
    exact ⟨hgo.1, hgo.2, below, rfl, (Except.ok.inj hstore).symm⟩

/-- The last key, where it fits: an object's, an element's, or the length that the array has. -/
theorem fits_last {key : Units} {at_ r : JsValue ν} {value : Option (JsValue ν)} (hv : Plain at_)
    (hc : at_.isContainer = true) (hfits : Fits N [key] at_ value) (h : setAt N [key] at_ value = .ok r) :
    (∃ own, at_ = obj own ∧ value = none ∧ r = obj (erase key own)) ∨
      (∃ x, Enters at_ key ∧ value = some x ∧ r = replaced at_ key x) ∨
      ∃ length own, at_ = arr length own ∧ key = lengthName ∧ value = some (num (N.ofLength length)) ∧ r = at_ := by
  rcases isContainer_cases hc with ⟨length, own, rfl⟩ | ⟨own, rfl⟩
  · cases value with
    | none => cases h
    | some x =>
      rw [setAt] at h
      rcases hfits with henters | ⟨rfl, hlength⟩
      · rw [store_entered henters] at h
        exact Or.inr (Or.inl ⟨x, henters, rfl, (Except.ok.inj h).symm⟩)
      · have hassign := store_eq_ok h
        rcases hlength with hnone | rfl
        · rw [assign, if_pos rfl, hnone] at hassign
          cases hassign
        · rw [assign_length N hv] at hassign
          exact Or.inr (Or.inr ⟨length, own, rfl, rfl, rfl, (Option.some.inj hassign).symm⟩)
  · cases value with
    | none =>
      rw [setAt] at h
      exact Or.inl ⟨own, rfl, rfl, (Except.ok.inj h).symm⟩
    | some x =>
      rw [setAt, store_entered (show Enters (obj own) key from trivial)] at h
      exact Or.inr (Or.inl ⟨x, trivial, rfl, (Except.ok.inj h).symm⟩)

theorem edited_of_fits {keys : List Units} {at_ r : JsValue ν} {value : Option (JsValue ν)} (hne : keys ≠ [])
    (hv : Plain at_) (hc : at_.isContainer = true) (hvalue : ∀ x, value = some x → Plain x) (hfits : Fits N keys at_ value)
    (h : setAt N keys at_ value = .ok r) : EditedAt N at_ keys value r := by
  match keys with
  | [] => exact absurd rfl hne
  | [key] =>
    rcases fits_last hv hc hfits h with ⟨own, rfl, rfl, rfl⟩ | ⟨x, henters, rfl, rfl⟩ | ⟨length, own, rfl, rfl, rfl, rfl⟩
    · exact edited_erase hv key
    · exact edited_replaced henters hv (hvalue x rfl)
    · exact edited_length hv
  | key :: next :: rest =>
    obtain ⟨henters, hfits, below, hbelow, rfl⟩ := fits_cons hc hfits h
    refine edited_cons henters hv (edited_of_fits (List.cons_ne_nil _ _) (plain_child hv key) (isContainer_child at_ key) hvalue
      hfits hbelow) fun hnew => ?_
    rw [child_new hnew] at hbelow
    exact setAt_obj hbelow

/-! ## Setting twice -/

theorem sameOutcome_refl (a : Except PointerError (JsValue ν)) : SameOutcome N a a := by
  cases a with
  | error e => rfl
  | ok a => exact same_refl N a

/-- What a removal leaves of what was set. -/
theorem same_erase_put (own : Own ν) (key : Units) (x : JsValue ν) :
    Same N (obj (erase key (put key x own))) (obj (erase key own)) := by
  refine same_of_member N rfl fun k rest => ?_
  rw [member, member, lookup_erase, lookup_erase, lookup_put]
  by_cases hk : k = key
  · rw [if_pos hk, if_pos hk]
  · rw [if_neg hk, if_neg hk, if_neg hk]

theorem twice_of_fits {keys : List Units} {at_ r : JsValue ν} {value : Option (JsValue ν)} (hne : keys ≠ [])
    (hv : Plain at_) (hc : at_.isContainer = true) (hvalue : ∀ x, value = some x → Plain x) (hfits : Fits N keys at_ value)
    (h : setAt N keys at_ value = .ok r) (w : Option (JsValue ν)) : SameOutcome N (setAt N keys r w) (setAt N keys at_ w) := by
  match keys with
  | [] => exact absurd rfl hne
  | [key] =>
    rcases fits_last hv hc hfits h with ⟨own, rfl, rfl, rfl⟩ | ⟨x, henters, rfl, rfl⟩ | ⟨length, own, rfl, rfl, rfl, rfl⟩
    · cases w with
      | none =>
        have htwice : erase key (erase key own) = erase key own := by
          rw [erase, erase, List.filter_filter]
          simp
        rw [setAt, setAt, htwice]
        exact same_refl N _
      | some y =>
        rw [setAt, setAt, store_entered (show Enters (obj (erase key own)) key from trivial),
          store_entered (show Enters (obj own) key from trivial)]
        exact same_put_erase N own key y
    · cases w with
      | none =>
        rcases isContainer_cases hc with ⟨length, own, rfl⟩ | ⟨own, rfl⟩
        · rfl
        · exact same_erase_put own key x
      | some y =>
        rw [setAt, setAt, store_entered ((enters_replaced at_ key x).mpr henters), store_entered henters, replaced_replaced]
        exact same_refl N _
    · exact sameOutcome_refl _
  | key :: next :: rest =>
    obtain ⟨henters, hfits, below, hbelow, rfl⟩ := fits_cons hc hfits h
    have hcontainer := isContainer_child (N := N) at_ key
    have hplain := plain_child (N := N) hv key
    have hedited := edited_of_fits (List.cons_ne_nil _ _) hplain hcontainer hvalue hfits hbelow
    have hchild : child N (replaced at_ key below) key = below := by
      rw [child, member_replaced N henters, if_pos rfl]
      exact if_pos ((isContainer_of_head hedited.head_eq).trans hcontainer)
    have ih := twice_of_fits (List.cons_ne_nil _ _) hplain hcontainer hvalue hfits hbelow w
    rw [setAt, setAt, hchild]
    cases hb : setAt N (next :: rest) below w with
    | error e =>
      cases hd : setAt N (next :: rest) (child N at_ key) w with
      | error e' =>
        rw [hb, hd] at ih
        exact ih
      | ok d' =>
        rw [hb, hd] at ih
        cases ih
    | ok d =>
      cases hd : setAt N (next :: rest) (child N at_ key) w with
      | error e' =>
        rw [hb, hd] at ih
        cases ih
      | ok d' =>
        rw [hb, hd] at ih
        show SameOutcome N (store N (replaced at_ key below) key d) (store N at_ key d')
        rw [store_entered ((enters_replaced at_ key below).mpr henters), store_entered henters, replaced_replaced]
        exact same_replaced N henters ih

/-! ## An edit that does not fit -/

/-- A law of an edit that is broken under one container. -/
def BrokenAt (N : Lengths ν) (at_ : JsValue ν) (keys : List Units) (value : Option (JsValue ν)) (r : JsValue ν) : Prop :=
  ¬ Plain r ∨ r.reach N keys ≠ value ∨ ∃ q, ¬ keys <+: q ∧ ¬ q <+: keys ∧ r.reach N q ≠ at_.reach N q

theorem apart_cons {key k : Units} (rest q : List Units) (h : k ≠ key) : ¬ key :: rest <+: k :: q ∧ ¬ k :: q <+: key :: rest :=
  ⟨fun hp => h (List.cons_prefix_cons.mp hp).1.symm, fun hp => h (List.cons_prefix_cons.mp hp).1⟩

/-- A property that is no element of an array yet breaks a law. -/
theorem broken_new {length : UInt32} {own : Own ν} {key : Units} {x r : JsValue ν} (rest : List Units)
    (value : Option (JsValue ν)) (hv : Plain (arr length own)) (hkey : key ≠ lengthName) (hnew : ¬ Enters (arr length own) key)
    (h : store N (arr length own) key x = .ok r) : BrokenAt N (arr length own) (key :: rest) value r := by
  have hnames := (plain_arr.mp hv).1
  have hcount : own.length = length.toNat := by
    simpa using congrArg List.length hnames
  have hmem : key ∉ own.map Prod.fst := by
    intro hmem
    rw [hnames] at hmem
    obtain ⟨i, hi, heq⟩ := List.mem_map.mp hmem
    exact hnew ⟨i, List.mem_range.mp hi, heq.symm⟩
  -- a plain array has as many properties as elements
  have hplain : ∀ m : UInt32, Plain (arr m (put key x own)) → m.toNat = length.toNat + 1 := by
    intro m hm
    have := congrArg List.length (plain_arr.mp hm).1
    rw [put_new hmem] at this
    simpa [hcount] using this.symm
  have hassign := store_eq_ok h
  rw [assign, if_neg hkey] at hassign
  cases hi : arrayIndex key with
  | none =>
    rw [hi] at hassign
    rw [← Option.some.inj hassign]
    refine Or.inl fun hm => ?_
    have := hplain _ hm
    omega
  | some i =>
    obtain ⟨hname, hlt⟩ := arrayIndex_eq_some hi
    have hpast : length.toNat ≤ i := Nat.le_of_not_lt fun hin => hnew ⟨i, hin, hname⟩
    have hnat : (UInt32.ofNat (i + 1)).toNat = i + 1 := by
      rw [UInt32.toNat_ofNat']
      exact Nat.mod_eq_of_lt (by omega)
    rw [hi] at hassign
    dsimp only at hassign
    rw [if_pos hpast] at hassign
    rw [← Option.some.inj hassign]
    by_cases hend : i = length.toNat
    · refine Or.inr (Or.inr ⟨[lengthName], (apart_cons rest [] hkey.symm).1, (apart_cons rest [] hkey.symm).2, ?_⟩)
      rw [reach_cons, reach_cons, member, member, if_pos rfl, if_pos rfl, Option.bind_some, Option.bind_some, reach_nil, reach_nil]
      intro heq
      have hlength := congrArg UInt32.toNat (ofLength_injective N (num.inj (Option.some.inj heq)))
      omega
    · refine Or.inl fun hm => ?_
      have := hplain _ hm
      omega

/-- Another length of an array breaks a law. -/
theorem broken_length {length : UInt32} {own : Own ν} {x r : JsValue ν} (hv : Plain (arr length own))
    (hx : x ≠ num (N.ofLength length)) (h : store N (arr length own) lengthName x = .ok r) :
    BrokenAt N (arr length own) [lengthName] (some x) r := by
  have hnames := (plain_arr.mp hv).1
  have hassign := store_eq_ok h
  rw [assign, if_pos rfl] at hassign
  obtain ⟨m, -, rfl⟩ := Option.map_eq_some_iff.mp hassign
  by_cases hread : x = num (N.ofLength m)
  · have hne : m.toNat ≠ length.toNat := by
      intro heq
      rw [UInt32.toNat_inj.mp heq] at hread
      exact hx hread
    rcases Nat.lt_or_ge m.toNat length.toNat with hless | hmore
    · have hkey := natText_ne_length m.toNat
      refine Or.inr (Or.inr ⟨[natText m.toNat], (apart_cons [] [] hkey).1, (apart_cons [] [] hkey).2, ?_⟩)
      rw [reach_cons, reach_cons, member, member, if_neg hkey, if_neg hkey]
      obtain ⟨⟨name, old⟩, hmem, hname⟩ := List.mem_map.mp ((mem_names hv).mpr hless)
      have hold := lookup_of_mem (hnames ▸ nodup_indices _) hmem
      rw [show name = natText m.toNat from hname] at hold
      rw [hold]
      cases hnew : (own.filter fun p => (arrayIndex p.1).all fun i => i < m.toNat).lookup (natText m.toNat) with
      | none =>
        rw [Option.bind_some, reach_nil]
        exact (Option.some_ne_none old).symm
      | some new =>
        have hkept := (List.mem_filter.mp (mem_of_lookup hnew)).2
        rw [arrayIndex_natText (index_lt hless), Option.all_some, decide_eq_true_eq] at hkept
        exact absurd hkept (Nat.lt_irrefl _)
    · refine Or.inl fun hm => ?_
      have hcount := congrArg List.length (plain_arr.mp hm).1
      have hold := congrArg List.length hnames
      have hfilter := List.length_filter_le (fun p : Units × JsValue ν => (arrayIndex p.1).all fun i => i < m.toNat) own
      simp only [List.length_map, List.length_range] at hcount hold
      omega
  · refine Or.inr (Or.inl fun heq => hread ?_)
    rw [reach_cons, member, if_pos rfl, Option.bind_some, reach_nil] at heq
    exact (Option.some.inj heq).symm

/-- What is broken below is broken. -/
theorem broken_cons {at_ below : JsValue ν} {key : Units} {rest : List Units} {value : Option (JsValue ν)}
    (h : Enters at_ key) (hbelow : BrokenAt N (child N at_ key) rest value below) :
    BrokenAt N at_ (key :: rest) value (replaced at_ key below) := by
  have hmember : member N (replaced at_ key below) key = some below := by
    rw [member_replaced N h, if_pos rfl]
  rcases hbelow with hplain | hreads | ⟨q, hq, hq', hdiffer⟩
  · exact Or.inl fun hp => hplain (plain_member N hp hmember)
  · refine Or.inr (Or.inl ?_)
    rw [reach_cons, hmember]
    exact hreads
  · have hne : q ≠ [] := fun hnil => hq' (hnil ▸ List.nil_prefix)
    refine Or.inr (Or.inr ⟨key :: q, fun hp => hq (List.cons_prefix_cons.mp hp).2,
      fun hp => hq' (List.cons_prefix_cons.mp hp).2, ?_⟩)
    rw [reach_cons, reach_cons, hmember, ← reach_child at_ key hne]
    exact hdiffer

theorem broken_of_not_fits {keys : List Units} {at_ r : JsValue ν} {value : Option (JsValue ν)} (hne : keys ≠ [])
    (hv : Plain at_) (hc : at_.isContainer = true) (hnot : ¬ Fits N keys at_ value)
    (h : setAt N keys at_ value = .ok r) : BrokenAt N at_ keys value r := by
  match keys with
  | [] => exact absurd rfl hne
  | [key] =>
    rcases isContainer_cases hc with ⟨length, own, rfl⟩ | ⟨own, rfl⟩
    · cases value with
      | none => cases h
      | some x =>
        obtain ⟨hentry, hlength⟩ := not_or.mp hnot
        rw [setAt] at h
        by_cases hkey : key = lengthName
        · subst hkey
          exact broken_length hv (fun hx => hlength ⟨rfl, Or.inr hx⟩) h
        · exact broken_new [] (some x) hv hkey hentry h
    · exact absurd trivial hnot
  | key :: next :: rest =>
    rw [setAt] at h
    cases hbelow : setAt N (next :: rest) (child N at_ key) value with
    | error e =>
      rw [hbelow] at h
      cases h
    | ok below =>
      rw [hbelow] at h
      have hstore : store N at_ key below = .ok r := h
      have hdeeper : ¬ Fits N (next :: rest) (child N at_ key) value →
          BrokenAt N (child N at_ key) (next :: rest) value below := fun hnot =>
        broken_of_not_fits (List.cons_ne_nil _ _) (plain_child hv key) (isContainer_child at_ key) hnot hbelow
      rcases isContainer_cases hc with ⟨length, own, rfl⟩ | ⟨own, rfl⟩
      · obtain ⟨hkey, hgo⟩ := not_or.mp hnot
        by_cases henters : Enters (arr length own) key
        · rw [store_entered henters] at hstore
          rw [← Except.ok.inj hstore]
          exact broken_cons henters (hdeeper fun hfits => hgo ⟨henters, hfits⟩)
        · exact broken_new (next :: rest) value hv hkey henters hstore
      · rw [store_entered (show Enters (obj own) key from trivial)] at hstore
        rw [← Except.ok.inj hstore]
        exact broken_cons trivial (hdeeper hnot)

/-- Nothing is refused under a new object. -/
theorem setAt_empty (keys : List Units) (value : Option (JsValue ν)) : ∃ own, setAt N keys (obj []) value = .ok (obj own) := by
  match keys with
  | [] => exact ⟨[], rfl⟩
  | [key] =>
    cases value with
    | none => exact ⟨_, rfl⟩
    | some x => exact ⟨_, rfl⟩
  | key :: next :: rest =>
    obtain ⟨own, hown⟩ := setAt_empty (next :: rest) value
    rw [setAt, child_new (show member N (obj []) key = none from rfl), hown]
    exact ⟨_, rfl⟩

theorem store_eq_error {at_ x : JsValue ν} {key : Units} {e : PointerError} (h : store N at_ key x = .error e) :
    ∃ length own, at_ = arr length own ∧ key = lengthName ∧ toLength N x = none := by
  have hnone : assign N at_ key x = none := by
    unfold store at h
    split at h
    · cases h
    · assumption
  cases at_ with
  | arr length own =>
    rw [assign] at hnone
    split at hnone
    · rename_i hkey
      exact ⟨length, own, rfl, hkey, Option.map_eq_none_iff.mp hnone⟩
    · split at hnone <;> cases hnone
  | obj own => cases hnone
  | null => cases hnone
  | bool b => cases hnone
  | num n => cases hnone
  | str s => cases hnone

/-- A walk that is refused on the way fits so far. -/
theorem fits_of_error {keys : List Units} {at_ : JsValue ν} {value : Option (JsValue ν)} {e : PointerError}
    (hv : Plain at_) (hc : at_.isContainer = true) (h : setAt N keys at_ value = .error e) : Fits N keys at_ value := by
  match keys with
  | [] => exact trivial
  | [key] =>
    rcases isContainer_cases hc with ⟨length, own, rfl⟩ | ⟨own, rfl⟩
    · cases value with
      | none => exact trivial
      | some x =>
        rw [setAt] at h
        obtain ⟨_, _, -, hkey, hnone⟩ := store_eq_error h
        exact Or.inr ⟨hkey, Or.inl hnone⟩
    · exact trivial
  | key :: next :: rest =>
    rw [setAt] at h
    cases hbelow : setAt N (next :: rest) (child N at_ key) value with
    | error e' =>
      have hdeeper := fits_of_error (plain_child hv key) (isContainer_child at_ key) hbelow
      rcases isContainer_cases hc with ⟨length, own, rfl⟩ | ⟨own, rfl⟩
      · have hold : child N (arr length own) key ≠ obj [] := by
          intro hnew
          obtain ⟨own', hok⟩ := setAt_empty (N := N) (next :: rest) value
          rw [hnew, hok] at hbelow
          cases hbelow
        have hkey : key ≠ lengthName := fun heq => hold (heq ▸ child_length length own)
        cases hmember : member N (arr length own) key with
        | none => exact absurd (child_new hmember) hold
        | some below =>
          rw [member, if_neg hkey] at hmember
          have hname : key ∈ own.map Prod.fst := List.mem_map_of_mem (f := Prod.fst) (mem_of_lookup hmember)
          rw [(plain_arr.mp hv).1] at hname
          obtain ⟨i, hi, heq⟩ := List.mem_map.mp hname
          exact Or.inr ⟨⟨i, List.mem_range.mp hi, heq.symm⟩, hdeeper⟩
      · exact hdeeper
    | ok below =>
      rw [hbelow] at h
      obtain ⟨length, own, rfl, hkey, -⟩ := store_eq_error (show store N at_ key below = .error e from h)
      exact Or.inl hkey

/-! ## Pointers -/

theorem replacePair_cons {a x : UInt16} (h : x ≠ a) (b c : UInt16) (s : Units) :
    replacePair a b c (x :: s) = x :: replacePair a b c s := by
  cases s with
  | nil => rfl
  | cons y rest => rw [replacePair, if_neg fun hxy => h hxy.1]

theorem replacePair_pair (a b c : UInt16) (s : Units) : replacePair a b c (a :: b :: s) = c :: replacePair a b c s := by
  rw [replacePair, if_pos ⟨rfl, rfl⟩]

/-- A token is read back from its escape. -/
theorem unescape_escaped (part : Units) : unescape (Pointers.escaped part) = part := by
  have htilde : ∀ s, replacePair (unit '~') (unit '1') (unit '/') (unit '~' :: unit '0' :: s) =
      unit '~' :: unit '0' :: replacePair (unit '~') (unit '1') (unit '/') s := by
    intro s
    rw [replacePair, if_neg (by decide), replacePair_cons (by decide)]
  unfold unescape
  induction part with
  | nil => rfl
  | cons u part ih =>
    rw [Pointers.escaped, List.flatMap_cons, ← Pointers.escaped, Pointers.escapeStep]
    by_cases hu : u = unit '~'
    · rw [if_pos hu, List.cons_append, List.singleton_append, htilde, replacePair_pair, ih, hu]
    · rw [if_neg hu]
      by_cases hslash : u = unit '/'
      · rw [if_pos hslash, List.cons_append, List.singleton_append, replacePair_pair, replacePair_cons (by decide), ih, hslash]
      · rw [if_neg hslash, List.singleton_append, replacePair_cons hu, replacePair_cons hu, ih]

/-- Every list of keys is that of a pointer. -/
theorem pointerKeys_pointer (keys : List Units) : pointerKeys (Pointers.pointer keys) = some keys := by
  cases keys with
  | nil => rfl
  | cons key rest =>
    have hsplit : (Pointers.escaped key ++ Pointers.pointer rest).splitOn (unit '/') = (key :: rest).map Pointers.escaped := by
      rw [Pointers.pointer_intercalate, List.splitOn_intercalate _ _ (by simp)]
      intro l hl
      obtain ⟨x, _, rfl⟩ := List.mem_map.mp hl
      exact Pointers.slash_not_mem_escaped x
    have hunescape : ∀ all : List Units, (all.map Pointers.escaped).map unescape = all := by
      intro all
      rw [List.map_map]
      exact (List.map_congr_left fun x _ => unescape_escaped x).trans (List.map_id all)
    rw [Pointers.pointer_cons, pointerKeys, if_neg (List.cons_ne_nil _ _), if_neg (by simp), tokens, List.tail_cons, hsplit,
      hunescape]

theorem pointerGet_eq (root : JsValue ν) (path : Units) :
    pointerGet N root path = (pointerKeys path).bind fun keys => root.reach N keys := by
  have hfold : ∀ (keys : List Units) (v : Option (JsValue ν)),
      keys.foldl (fun v k => v.bind fun v => member N v k) v = v.bind fun v => v.reach N keys := by
    intro keys
    induction keys with
    | nil =>
      intro v
      cases v with
      | none => rfl
      | some v => exact (reach_nil N v).symm
    | cons key rest ih =>
      intro v
      rw [List.foldl_cons, ih]
      cases v with
      | none => rfl
      | some v => exact (reach_cons N v key rest).symm
  unfold pointerGet pointerKeys
  split
  · exact (reach_nil N root).symm
  · split
    · rfl
    · exact hfold _ _

/-! ## The edit -/

/-- Whether a pointer is refused before the walk. -/
def Refused (path : Units) : Prop := path.head? ≠ some (unit '/') ∨ ∃ k ∈ tokens path, k ∈ forbidden

/-- Whatever is returned keeps the laws of an edit. -/
def Keeps (N : Lengths ν) (root : JsValue ν) (path : Units) (value : Option (JsValue ν)) : Prop :=
  ∀ result, pointerSet N root path value = .ok result → Edited N root path value result

theorem tokens_ne_nil (path : Units) : tokens path ≠ [] := fun h => List.splitOn_ne_nil _ _ (List.map_eq_nil_iff.mp h)

theorem isContainer_start (root : JsValue ν) : (start root).isContainer = true := by
  unfold start
  split
  · assumption
  · rfl

theorem plain_start {root : JsValue ν} (h : Plain root) : Plain (start root) := by
  unfold start
  split
  · exact h
  · exact plain_empty

theorem reach_start (root : JsValue ν) {keys : List Units} (hne : keys ≠ []) : (start root).reach N keys = root.reach N keys := by
  unfold start
  split
  · rfl
  · rename_i hscalar
    rw [reach_empty N hne, reach_scalar N (Bool.not_eq_true _ ▸ hscalar) hne]

theorem pointerSet_refused {path : Units} (h : Refused path) (hne : path ≠ []) (root : JsValue ν)
    (value : Option (JsValue ν)) : ∃ e, pointerSet N root path value = .error e := by
  unfold pointerSet
  rw [if_neg hne]
  split
  · exact ⟨_, rfl⟩
  · rename_i hslash
    have hany : ((tokens path).any fun k => forbidden.contains k) = true := by
      rcases h with h | ⟨k, hk, hforbidden⟩
      · exact absurd h hslash
      · exact List.any_eq_true.mpr ⟨k, hk, List.contains_iff_mem.mpr hforbidden⟩
    rw [if_pos hany]
    exact ⟨_, rfl⟩

theorem pointerSet_walks {path : Units} (h : ¬ Refused path) (hne : path ≠ []) (root : JsValue ν) (value : Option (JsValue ν)) :
    pointerSet N root path value = setAt N (tokens path) (start root) value ∧ pointerKeys path = some (tokens path) := by
  obtain ⟨hslash, hforbidden⟩ := not_or.mp h
  have hany : ¬ ((tokens path).any fun k => forbidden.contains k) = true := by
    intro hany
    obtain ⟨k, hk, hmem⟩ := List.any_eq_true.mp hany
    exact hforbidden ⟨k, hk, List.contains_iff_mem.mp hmem⟩
  unfold pointerSet pointerKeys
  rw [if_neg hne, if_neg hslash, if_neg hany, if_neg hne, if_neg hslash]
  exact ⟨rfl, rfl⟩

/-- What is edited at a pointer keeps the laws of an edit exactly when the walk fits, or the pointer is refused. -/
theorem keeps_iff (N : Lengths ν) {root : JsValue ν} {path : Units} {value : Option (JsValue ν)} (hroot : Plain root)
    (hpath : path ≠ []) (hvalue : ∀ x, value = some x → Plain x) :
    Keeps N root path value ↔ Refused path ∨ Fits N (tokens path) (start root) value := by
  by_cases hrefused : Refused path
  · refine iff_of_true (fun result h => ?_) (Or.inl hrefused)
    obtain ⟨e, he⟩ := pointerSet_refused (N := N) hrefused hpath root value
    rw [he] at h
    cases h
  have hstart := isContainer_start root
  have hplain := plain_start hroot
  have hne := tokens_ne_nil path
  have hkeys : pointerKeys path = some (tokens path) := (pointerSet_walks (N := N) hrefused hpath root value).2
  have hset : ∀ v, pointerSet N root path v = setAt N (tokens path) (start root) v :=
    fun v => (pointerSet_walks hrefused hpath root v).1
  constructor
  · intro hkeeps
    refine Or.inr (Classical.byContradiction fun hnot => ?_)
    cases hresult : setAt N (tokens path) (start root) value with
    | error e => exact hnot (fits_of_error hplain hstart hresult)
    | ok result =>
      have hedited := hkeeps result ((hset value).trans hresult)
      rcases broken_of_not_fits hne hplain hstart hnot hresult with hbroken | hreads | ⟨q, hq, hq', hdiffer⟩
      · exact hbroken hedited.plain
      · have hread := hedited.reads
        rw [pointerGet_eq, hkeys] at hread
        exact hreads hread
      · have hqkeys := pointerKeys_pointer q
        have hqne : q ≠ [] := fun hnil => hq' (hnil ▸ List.nil_prefix)
        have hframe := hedited.frame (Pointers.pointer q) fun keys hkeys' => by
          rw [hqkeys] at hkeys'
          rw [← Option.some.inj hkeys']
          exact ⟨hq, hq'⟩
        rw [pointerGet_eq, pointerGet_eq, hqkeys, Option.bind_some, Option.bind_some, ← reach_start root hqne] at hframe
        exact hdiffer hframe
  · rintro (h | hfits)
    · exact absurd h hrefused
    intro result h
    rw [hset] at h
    have hedited := edited_of_fits hne hplain hstart hvalue hfits h
    have hcontainer : start result = result := if_pos ((isContainer_of_head hedited.head_eq).trans hstart)
    refine ⟨hedited.plain, ?_, ?_, ?_, ?_⟩
    · rw [pointerGet_eq, hkeys]
      exact hedited.reads
    · intro q hq
      rw [pointerGet_eq, pointerGet_eq]
      cases hqkeys : pointerKeys q with
      | none => rfl
      | some keys =>
        obtain ⟨hon, hup⟩ := hq keys hqkeys
        have hkeysne : keys ≠ [] := fun hnil => hup (hnil ▸ List.nil_prefix)
        rw [Option.bind_some, Option.bind_some, hedited.frame keys hon hup, reach_start root hkeysne]
    · intro q keys hqkeys hprefix hproper hnone c hc
      rw [pointerGet_eq, hqkeys, Option.bind_some] at hnone hc
      have hkeysne : keys ≠ [] := by
        rintro rfl
        rw [reach_nil] at hnone
        cases hnone
      rw [← reach_start root hkeysne] at hnone
      exact hedited.made keys hprefix hproper hnone c hc
    · intro w
      rw [hset, (pointerSet_walks (N := N) hrefused hpath result w).1, hcontainer]
      exact twice_of_fits hne hplain hstart hvalue hfits h w

end

/-! ## Whole numbers -/

/-- Whole numbers as lengths; no text is one here. -/
def wholeLengths : Lengths Int where
  ofLength n := n.toNat
  asLength z := if 0 ≤ z ∧ z < 4294967296 then some (UInt32.ofNat z.toNat) else none
  textLength _ := none
  asLength_ofLength n := by
    have hlt := n.toNat_lt
    rw [if_pos ⟨Int.natCast_nonneg _, by omega⟩, Int.toNat_natCast, UInt32.ofNat_toNat]

/-- A member of an object in an object is edited. -/
theorem keeps_iff_member : Keeps wholeLengths (obj [(wordText "a", obj [])]) (wordText "/a/b") (some (num 1)) ↔
    Refused (wordText "/a/b") ∨
      Fits wholeLengths (tokens (wordText "/a/b")) (start (obj [(wordText "a", obj [])])) (some (num 1)) :=
  keeps_iff wholeLengths
    (plain_obj.mpr fun p hp => by
      rw [List.mem_singleton.mp hp]
      exact plain_empty)
    (by decide) fun x hx => by
      rw [← Option.some.inj hx, Plain, roundTrip]

/-- A name set on an array is lost in JSON. -/
theorem name_on_array_not_kept : ¬ Keeps wholeLengths (arr 1 [(natText 0, num 1)]) (wordText "/x") (some (bool true)) := by
  intro h
  have hset : pointerSet wholeLengths (arr 1 [(natText 0, num 1)]) (wordText "/x") (some (bool true)) =
      .ok (arr 1 [(natText 0, num 1), (wordText "x", bool true)]) := by
    rfl
  have hcount := congrArg List.length (plain_arr.mp (h _ hset).plain).1
  exact absurd hcount (by decide)

end Desk.FactPointers
