import Desk.Lib.JsonText

/-!
# Readers of JSON texts

A reader is given by how it reads strings and numbers, how deep it goes and
what it makes of a repeated name. It accepts a text exactly when a tree that it
gives a value spells it (`Reader.parse_iff`).
-/

namespace Desk

/-! ## Values and readers -/

inductive Value (ν : Type) where
  | null
  | bool (b : Bool)
  | num (n : ν)
  | str (s : Units)
  | arr (items : List (Value ν))
  | obj (members : List (Units × Value ν))

/-- How strings and numbers are read, how deep a container may stand and what is made of the members. -/
structure Reader (ν : Type) where
  /-- After the opening quote; leaves what follows the closing one. -/
  string : Units → Option (Units × Units)
  number : Units → Option (ν × Units)
  nests : Nat → Bool
  entries : List (Units × Value ν) → Option (List (Units × Value ν))

def skipLayout (input : Units) : Units := input.dropWhile isLayout

def startsWord (w : String) (input : Units) : Bool := (wordText w).isPrefixOf input

def readWord {ν : Type} (w : String) (v : Value ν) (input : Units) : Option (Value ν × Units) :=
  if startsWord w input then some (v, input.drop w.length) else none

namespace Reader

variable {ν : Type} (r : Reader ν)

mutual

def value : Nat → Nat → Units → Option (Value ν × Units)
  | 0, _, _ => none
  | _ + 1, _, [] => none
  | fuel + 1, depth, c :: rest =>
    if c = unit '\x7b' then
      if r.nests depth then
        if (skipLayout rest).head? = some (unit '\x7d') then some (.obj [], (skipLayout rest).tail)
        else do
          let (members, rest) ← members fuel (depth + 1) rest
          let entries ← r.entries members
          return (.obj entries, rest)
      else none
    else if c = unit '[' then
      if r.nests depth then
        if (skipLayout rest).head? = some (unit ']') then some (.arr [], (skipLayout rest).tail)
        else do
          let (items, rest) ← items fuel (depth + 1) rest
          return (.arr items, rest)
      else none
    else if c = quoteUnit then do
      let (s, rest) ← r.string rest
      return (.str s, rest)
    else if c = unit 't' then readWord "true" (.bool true) (c :: rest)
    else if c = unit 'f' then readWord "false" (.bool false) (c :: rest)
    else if c = unit 'n' then readWord "null" .null (c :: rest)
    else do
      let (n, rest) ← r.number (c :: rest)
      return (.num n, rest)

def items : Nat → Nat → Units → Option (List (Value ν) × Units)
  | 0, _, _ => none
  | fuel + 1, depth, input => do
    let (v, rest) ← value fuel depth (skipLayout input)
    match skipLayout rest with
    | [] => none
    | c :: rest =>
      if c = unit ',' then do
        let (vs, rest) ← items fuel depth rest
        return (v :: vs, rest)
      else if c = unit ']' then some ([v], rest)
      else none

def members : Nat → Nat → Units → Option (List (Units × Value ν) × Units)
  | 0, _, _ => none
  | fuel + 1, depth, input =>
    match skipLayout input with
    | [] => none
    | q :: rest =>
      if q = quoteUnit then do
        let (name, rest) ← r.string rest
        match skipLayout rest with
        | [] => none
        | c :: rest =>
          if c = unit ':' then do
            let (v, rest) ← value fuel depth (skipLayout rest)
            match skipLayout rest with
            | [] => none
            | c :: rest =>
              if c = unit ',' then do
                let (vs, rest) ← members fuel depth rest
                return ((name, v) :: vs, rest)
              else if c = unit '\x7d' then some ([(name, v)], rest)
              else none
          else none
      else none

end

/-- One value, and layout around it. -/
def parse (text : Units) : Option (Value ν) := do
  let (v, rest) ← r.value (text.length + 1) 0 (skipLayout text)
  if (skipLayout rest).isEmpty then return v else none

end Reader

/-! ## What a reader accepts -/

/-- A number is read to its end. -/
def Stops (rest : Units) : Prop := ∀ u ∈ rest.head?, isNumeric u = false

/-- What a reader makes of the pieces of a string and of a number literal. -/
structure Spelling {ν : Type} (r : Reader ν) where
  string : List Piece → Option Units
  number : Numeral → Option ν
  string_sound : ∀ {input v rest}, r.string input = some (v, rest) →
    ∃ ps, input = piecesText ps ++ quoteUnit :: rest ∧ string ps = some v
  string_complete : ∀ {ps v} (rest), string ps = some v →
    r.string (piecesText ps ++ quoteUnit :: rest) = some (v, rest)
  number_sound : ∀ {input v rest}, r.number input = some (v, rest) → ∃ n : Numeral, input = n.1 ++ rest ∧ number n = some v
  number_complete : ∀ {n v rest}, number n = some v → Stops rest → r.number (n.1 ++ rest) = some (v, rest)

section
variable {ν : Type} {r : Reader ν} (s : Spelling r)

mutual

/-- The value of a tree at a depth. -/
def Cst.build : Cst → Nat → Option (Value ν)
  | .null, _ => some .null
  | .bool b, _ => some (.bool b)
  | .num n, _ => (s.number n).map .num
  | .str ps, _ => (s.string ps).map .str
  | .noItems _, depth => if r.nests depth then some (.arr []) else none
  | .arr items, depth => if r.nests depth then (items.build (depth + 1)).map .arr else none
  | .noMembers _, depth => if r.nests depth then some (.obj []) else none
  | .obj members, depth =>
    if r.nests depth then ((members.build (depth + 1)).bind r.entries).map .obj else none

def CstItems.build : CstItems → Nat → Option (List (Value ν))
  | .last _ v _, depth => (v.build depth).map fun v => [v]
  | .cons _ v _ rest, depth => do return (← v.build depth) :: (← rest.build depth)

def CstMembers.build : CstMembers → Nat → Option (List (Units × Value ν))
  | .last _ name _ _ v _, depth => do return [(← s.string name, ← v.build depth)]
  | .cons _ name _ _ v _ rest, depth => do return (← s.string name, ← v.build depth) :: (← rest.build depth)

end

end

/-! ## Layout -/

theorem skipLayout_split (input : Units) : ∃ l : Layout, input = l.1 ++ skipLayout input := by
  refine ⟨⟨input.takeWhile isLayout, ?_⟩, ?_⟩
  · exact List.all_takeWhile
  · exact List.takeWhile_append_dropWhile.symm

theorem skipLayout_layout (l : Layout) (rest : Units) : skipLayout (l.1 ++ rest) = skipLayout rest := by
  rw [skipLayout, List.dropWhile_append]
  have h : l.1.dropWhile isLayout = [] := by
    rw [List.dropWhile_eq_nil_iff]
    exact List.all_eq_true.mp l.2
  rw [h]
  rfl

theorem skipLayout_cons {u : UInt16} (h : isLayout u = false) (rest : Units) : skipLayout (u :: rest) = u :: rest := by
  rw [skipLayout, List.dropWhile_cons_of_neg (by simp [h])]

theorem skipLayout_nil : skipLayout [] = [] := rfl

/-! ## What is accepted is spelled by a tree -/

section
variable {ν : Type} {r : Reader ν} (s : Spelling r)

/-- One value read with less fuel, one list of items and one of members. -/
structure ReadSound (fuel : Nat) : Prop where
  value : ∀ {depth input v rest}, r.value fuel depth input = some (v, rest) →
    ∃ c : Cst, input = c.text ++ rest ∧ c.build s depth = some v
  items : ∀ {depth input vs rest}, r.items fuel depth input = some (vs, rest) →
    ∃ c : CstItems, input = c.text ++ rest ∧ c.build s depth = some vs
  members : ∀ {depth input vs rest}, r.members fuel depth input = some (vs, rest) →
    ∃ c : CstMembers, input = c.text ++ rest ∧ c.build s depth = some vs

theorem readWord_sound {w : String} {v v' : Value ν} {input rest : Units} (h : readWord w v input = some (v', rest)) :
    v' = v ∧ input = wordText w ++ rest := by
  unfold readWord at h
  split at h
  · rename_i hw
    obtain ⟨rfl, rfl⟩ := by simpa using h
    refine ⟨rfl, ?_⟩
    obtain ⟨more, rfl⟩ := List.isPrefixOf_iff_prefix.mp hw
    have hlen : w.length = (wordText w).length := by rw [wordText, List.length_map, String.length_toList]
    rw [hlen, List.drop_left]
  · cases h

theorem cons_tail_of_head? {u : UInt16} {l : Units} (h : l.head? = some u) : l = u :: l.tail := by
  cases l with
  | nil => cases h
  | cons a l => rw [List.head?_cons, Option.some.injEq] at h; rw [h]; rfl

variable {s}

theorem ReadSound.value_succ {fuel : Nat} (ih : ReadSound s fuel) {depth : Nat} {input : Units} {v : Value ν}
    {rest : Units} (h : r.value (fuel + 1) depth input = some (v, rest)) :
    ∃ c : Cst, input = c.text ++ rest ∧ c.build s depth = some v := by
  cases input with
  | nil => cases h
  | cons u input =>
    rw [Reader.value] at h
    split at h
    · rename_i hu
      split at h
      · rename_i hn
        obtain ⟨l, hl⟩ := skipLayout_split input
        split at h
        · rename_i he
          simp only [Option.some.injEq, Prod.mk.injEq] at h
          obtain ⟨rfl, rfl⟩ := h
          refine ⟨.noMembers l, ?_, by rw [Cst.build, if_pos hn]⟩
          rw [Cst.text, hu, List.cons_append, List.append_assoc, List.singleton_append, ← cons_tail_of_head? he, ← hl]
        · simp only [Option.bind_eq_bind, Option.bind_eq_some_iff, Prod.exists] at h
          obtain ⟨ms, rest', hm, es, he, h⟩ := h
          simp only [Option.pure_def, Option.some.injEq, Prod.mk.injEq] at h
          obtain ⟨rfl, rfl⟩ := h
          obtain ⟨c, hc, hb⟩ := ih.members hm
          refine ⟨.obj c, by rw [Cst.text, hu, hc]; rfl, ?_⟩
          rw [Cst.build, if_pos hn, hb, Option.bind_some, he]
          rfl
      · cases h
    · split at h
      · rename_i hu
        split at h
        · rename_i hn
          obtain ⟨l, hl⟩ := skipLayout_split input
          split at h
          · rename_i he
            simp only [Option.some.injEq, Prod.mk.injEq] at h
            obtain ⟨rfl, rfl⟩ := h
            refine ⟨.noItems l, ?_, by rw [Cst.build, if_pos hn]⟩
            rw [Cst.text, hu, List.cons_append, List.append_assoc, List.singleton_append, ← cons_tail_of_head? he, ← hl]
          · simp only [Option.bind_eq_bind, Option.bind_eq_some_iff, Prod.exists] at h
            obtain ⟨vs, rest', hi, h⟩ := h
            simp only [Option.pure_def, Option.some.injEq, Prod.mk.injEq] at h
            obtain ⟨rfl, rfl⟩ := h
            obtain ⟨c, hc, hb⟩ := ih.items hi
            refine ⟨.arr c, by rw [Cst.text, hu, hc]; rfl, ?_⟩
            rw [Cst.build, if_pos hn, hb]
            rfl
        · cases h
      · split at h
        · rename_i hu
          simp only [Option.bind_eq_bind, Option.bind_eq_some_iff, Prod.exists] at h
          obtain ⟨t, rest', ht, h⟩ := h
          simp only [Option.pure_def, Option.some.injEq, Prod.mk.injEq] at h
          obtain ⟨rfl, rfl⟩ := h
          obtain ⟨ps, hp, hs⟩ := s.string_sound ht
          refine ⟨.str ps, ?_, by rw [Cst.build, hs]; rfl⟩
          rw [Cst.text, quotedText, hu, hp]
          simp
        · split at h
          · obtain ⟨rfl, hi⟩ := readWord_sound h
            exact ⟨.bool true, hi, by rw [Cst.build]⟩
          · split at h
            · obtain ⟨rfl, hi⟩ := readWord_sound h
              exact ⟨.bool false, hi, by rw [Cst.build]⟩
            · split at h
              · obtain ⟨rfl, hi⟩ := readWord_sound h
                exact ⟨.null, hi, by rw [Cst.build]⟩
              · simp only [Option.bind_eq_bind, Option.bind_eq_some_iff, Prod.exists] at h
                obtain ⟨n, rest', hn, h⟩ := h
                simp only [Option.pure_def, Option.some.injEq, Prod.mk.injEq] at h
                obtain ⟨rfl, rfl⟩ := h
                obtain ⟨l, hl, hb⟩ := s.number_sound hn
                exact ⟨.num l, hl, by rw [Cst.build, hb]; rfl⟩

theorem ReadSound.items_succ {fuel : Nat} (ih : ReadSound s fuel) {depth : Nat} {input : Units} {vs : List (Value ν)}
    {rest : Units} (h : r.items (fuel + 1) depth input = some (vs, rest)) :
    ∃ c : CstItems, input = c.text ++ rest ∧ c.build s depth = some vs := by
  rw [Reader.items] at h
  simp only [Option.bind_eq_bind, Option.bind_eq_some_iff, Prod.exists] at h
  obtain ⟨v, after, hv, h⟩ := h
  obtain ⟨pre, hpre⟩ := skipLayout_split input
  obtain ⟨post, hpost⟩ := skipLayout_split after
  obtain ⟨c, hc, hb⟩ := ih.value hv
  split at h
  · cases h
  · rename_i u more hskip
    rw [hc, hpost, hskip] at hpre
    split at h
    · rename_i hu
      simp only [Option.bind_eq_some_iff, Prod.exists] at h
      obtain ⟨ws, rest', hw, h⟩ := h
      simp only [Option.pure_def, Option.some.injEq, Prod.mk.injEq] at h
      obtain ⟨rfl, rfl⟩ := h
      obtain ⟨cs, hcs, hbs⟩ := ih.items hw
      refine ⟨.cons pre c post cs, ?_, by rw [CstItems.build, hb, hbs]; rfl⟩
      rw [CstItems.text, hpre, hcs, hu]
      simp
    · split at h
      · rename_i hu
        simp only [Option.some.injEq, Prod.mk.injEq] at h
        obtain ⟨rfl, rfl⟩ := h
        refine ⟨.last pre c post, ?_, by rw [CstItems.build, hb]; rfl⟩
        rw [CstItems.text, hpre, hu]
        simp
      · cases h

theorem ReadSound.members_succ {fuel : Nat} (ih : ReadSound s fuel) {depth : Nat} {input : Units}
    {vs : List (Units × Value ν)} {rest : Units} (h : r.members (fuel + 1) depth input = some (vs, rest)) :
    ∃ c : CstMembers, input = c.text ++ rest ∧ c.build s depth = some vs := by
  rw [Reader.members] at h
  obtain ⟨pre, hpre⟩ := skipLayout_split input
  split at h
  · cases h
  · rename_i q named hq
    rw [hq] at hpre
    split at h
    · rename_i hquote
      simp only [Option.bind_eq_bind, Option.bind_eq_some_iff, Prod.exists] at h
      obtain ⟨name, after, hn, h⟩ := h
      obtain ⟨ps, hps, hs⟩ := s.string_sound hn
      obtain ⟨mid, hmid⟩ := skipLayout_split after
      split at h
      · cases h
      · rename_i u separated hcolon
        rw [hcolon] at hmid
        split at h
        · rename_i hu
          obtain ⟨sep, hsep⟩ := skipLayout_split separated
          simp only [Option.bind_eq_some_iff, Prod.exists] at h
          obtain ⟨v, ended, hv, h⟩ := h
          obtain ⟨post, hpost⟩ := skipLayout_split ended
          obtain ⟨c, hc, hb⟩ := ih.value hv
          split at h
          · cases h
          · rename_i u' more hskip
            rw [hquote, hps, hmid, hu, hsep, hc, hpost, hskip] at hpre
            split at h
            · rename_i hu'
              simp only [Option.bind_eq_some_iff, Prod.exists] at h
              obtain ⟨ws, rest', hw, h⟩ := h
              simp only [Option.pure_def, Option.some.injEq, Prod.mk.injEq] at h
              obtain ⟨rfl, rfl⟩ := h
              obtain ⟨cs, hcs, hbs⟩ := ih.members hw
              refine ⟨.cons pre ps mid sep c post cs, ?_, by rw [CstMembers.build, hs, hb, hbs]; rfl⟩
              rw [CstMembers.text, hpre, hcs, hu']
              simp [quotedText]
            · split at h
              · rename_i hu'
                simp only [Option.some.injEq, Prod.mk.injEq] at h
                obtain ⟨rfl, rfl⟩ := h
                refine ⟨.last pre ps mid sep c post, ?_, by rw [CstMembers.build, hs, hb]; rfl⟩
                rw [CstMembers.text, hpre, hu']
                simp [quotedText]
              · cases h
        · cases h
    · cases h

theorem readSound : ∀ fuel, ReadSound s fuel
  | 0 => ⟨nofun, nofun, nofun⟩
  | fuel + 1 => ⟨(readSound fuel).value_succ, (readSound fuel).items_succ, (readSound fuel).members_succ⟩

end

/-! ## What a tree spells is accepted -/

theorem stops_cons {u : UInt16} (h : isNumeric u = false) (rest : Units) : Stops (u :: rest) := by
  intro v hv
  rw [List.head?_cons, Option.mem_some_iff] at hv
  rw [← hv, h]

theorem stops_nil : Stops [] := nofun

theorem comma_stops : isNumeric (unit ',') = false := by decide

theorem bracket_stops : isNumeric (unit ']') = false := by decide

theorem brace_stops : isNumeric (unit '\x7d') = false := by decide

theorem stops_layout (l : Layout) {rest : Units} (h : Stops rest) : Stops (l.1 ++ rest) := by
  obtain ⟨l, hl⟩ := l
  cases l with
  | nil => exact h
  | cons u l =>
    rw [List.all_cons, Bool.and_eq_true] at hl
    exact stops_cons (isNumeric_of_isLayout hl.1) _

/-- What a value starts with. -/
theorem Cst.text_head (c : Cst) : ∃ u rest, c.text = u :: rest ∧ isLayout u = false ∧ u ≠ unit ']' := by
  cases c with
  | null => exact ⟨_, _, rfl, by decide, by decide⟩
  | bool b => cases b <;> exact ⟨_, _, rfl, by decide, by decide⟩
  | num n =>
    obtain ⟨u, rest, hn, hu⟩ := numeral_head n
    refine ⟨u, rest, hn, ?_⟩
    rcases hu with rfl | hu
    · exact ⟨by decide, by decide⟩
    · rw [isDigit_iff] at hu
      refine ⟨?_, fun h => ?_⟩
      · rw [← Bool.not_eq_true]
        intro h
        simp only [isLayout, Bool.or_eq_true, beq_iff_eq] at h
        rcases h with ((h | h) | h) | h <;> rw [h] at hu <;> exact absurd hu (by decide)
      · rw [h] at hu
        exact absurd hu (by decide)
  | str ps => exact ⟨_, _, rfl, by decide, by decide⟩
  | noItems l => exact ⟨_, _, rfl, by decide, by decide⟩
  | arr items => exact ⟨_, _, rfl, by decide, by decide⟩
  | noMembers l => exact ⟨_, _, rfl, by decide, by decide⟩
  | obj members => exact ⟨_, _, rfl, by decide, by decide⟩

theorem Cst.skipLayout_text (c : Cst) (rest : Units) : skipLayout (c.text ++ rest) = c.text ++ rest := by
  obtain ⟨u, more, hc, hu, _⟩ := c.text_head
  rw [hc, List.cons_append, skipLayout_cons hu]

theorem CstItems.skipLayout_text_head (c : CstItems) (rest : Units) : (skipLayout (c.text ++ rest)).head? ≠ some (unit ']') := by
  have head : ∀ (pre : Layout) (v : Cst) (more : Units), (skipLayout (pre.1 ++ (v.text ++ more))).head? ≠ some (unit ']') := by
    intro pre v more
    obtain ⟨u, t, hv, _, hu⟩ := v.text_head
    rw [skipLayout_layout, v.skipLayout_text, hv, List.cons_append, List.head?_cons]
    exact fun h => hu (Option.some.inj h)
  cases c with
  | last pre v post => rw [CstItems.text, List.append_assoc, List.append_assoc]; exact head pre v _
  | cons pre v post more => rw [CstItems.text, List.append_assoc, List.append_assoc]; exact head pre v _

theorem CstMembers.skipLayout_text_head (c : CstMembers) (rest : Units) :
    (skipLayout (c.text ++ rest)).head? ≠ some (unit '\x7d') := by
  have head : ∀ (pre : Layout) (more : Units), (skipLayout (pre.1 ++ (quoteUnit :: more))).head? ≠ some (unit '\x7d') := by
    intro pre more
    rw [skipLayout_layout, skipLayout_cons (by decide), List.head?_cons]
    decide
  cases c with
  | last pre name mid sep v post =>
    rw [CstMembers.text, List.append_assoc, quotedText, List.cons_append, List.cons_append]
    exact head pre _
  | cons pre name mid sep v post more =>
    rw [CstMembers.text, List.append_assoc, quotedText, List.cons_append, List.cons_append]
    exact head pre _

theorem readWord_text (w : String) {ν : Type} (v : Value ν) (rest : Units) :
    readWord w v (wordText w ++ rest) = some (v, rest) := by
  have hlen : w.length = (wordText w).length := by rw [wordText, List.length_map, String.length_toList]
  have hw : startsWord w (wordText w ++ rest) = true := List.isPrefixOf_iff_prefix.mpr ⟨rest, rfl⟩
  rw [readWord, if_pos hw, hlen, List.drop_left]

section
variable {ν : Type} {r : Reader ν} (s : Spelling r)

mutual

theorem Cst.read : ∀ (c : Cst) (fuel : Nat) {depth : Nat} {v : Value ν} (rest : Units), c.build s depth = some v →
    Stops rest → c.text.length < fuel → r.value fuel depth (c.text ++ rest) = some (v, rest)
  | _, 0, _, _, _, _, _, hf => absurd hf (Nat.not_lt_zero _)
  | .null, fuel + 1, depth, v, rest, hb, _, _ => by
    rw [Cst.build, Option.some.injEq] at hb
    rw [← hb]
    exact readWord_text "null" .null rest
  | .bool b, fuel + 1, depth, v, rest, hb, _, _ => by
    rw [Cst.build, Option.some.injEq] at hb
    rw [← hb]
    cases b
    · exact readWord_text "false" (.bool false) rest
    · exact readWord_text "true" (.bool true) rest
  | .num n, fuel + 1, depth, v, rest, hb, hr, _ => by
    rw [Cst.build, Option.map_eq_some_iff] at hb
    obtain ⟨x, hx, rfl⟩ := hb
    have hread := s.number_complete hx hr
    obtain ⟨u, more, hn, hu⟩ := numeral_head n
    rw [Cst.text]
    rw [hn, List.cons_append] at hread ⊢
    have hne : ∀ w : UInt16, isNumeric w = false → u ≠ w := by
      rintro w hw rfl
      rcases hu with rfl | hu
      · exact absurd hw (by decide)
      · rw [isNumeric, hu] at hw
        exact absurd hw (by simp)
    rw [Reader.value, if_neg (hne _ (by decide)), if_neg (hne _ (by decide)), if_neg (hne _ (by decide)),
      if_neg (hne _ (by decide)), if_neg (hne _ (by decide)), if_neg (hne _ (by decide)), hread]
    rfl
  | .str ps, fuel + 1, depth, v, rest, hb, _, _ => by
    rw [Cst.build, Option.map_eq_some_iff] at hb
    obtain ⟨t, ht, rfl⟩ := hb
    have hread := s.string_complete rest ht
    rw [Cst.text, quotedText, List.cons_append, List.append_assoc, List.singleton_append, Reader.value,
      if_neg (by decide), if_neg (by decide), if_pos rfl, hread]
    rfl
  | .noItems l, fuel + 1, depth, v, rest, hb, _, _ => by
    rw [Cst.build] at hb
    split at hb
    · rename_i hn
      rw [Option.some.injEq] at hb
      have hskip : skipLayout (l.1 ++ [unit ']'] ++ rest) = unit ']' :: rest := by
        rw [List.append_assoc, skipLayout_layout, List.singleton_append, skipLayout_cons (by decide)]
      rw [Cst.text, List.cons_append, Reader.value, if_neg (by decide), if_pos rfl, if_pos hn, hskip, ← hb]
      rfl
    · cases hb
  | .arr items, fuel + 1, depth, v, rest, hb, hr, hf => by
    rw [Cst.build] at hb
    split at hb
    · rename_i hn
      rw [Option.map_eq_some_iff] at hb
      obtain ⟨vs, hvs, rfl⟩ := hb
      have hread := items.read fuel rest hvs (by rw [Cst.text, List.length_cons] at hf; omega)
      rw [Cst.text, List.cons_append, Reader.value, if_neg (by decide), if_pos rfl, if_pos hn,
        if_neg (items.skipLayout_text_head rest), hread]
      rfl
    · cases hb
  | .noMembers l, fuel + 1, depth, v, rest, hb, _, _ => by
    rw [Cst.build] at hb
    split at hb
    · rename_i hn
      rw [Option.some.injEq] at hb
      have hskip : skipLayout (l.1 ++ [unit '\x7d'] ++ rest) = unit '\x7d' :: rest := by
        rw [List.append_assoc, skipLayout_layout, List.singleton_append, skipLayout_cons (by decide)]
      rw [Cst.text, List.cons_append, Reader.value, if_pos rfl, if_pos hn, hskip, ← hb]
      rfl
    · cases hb
  | .obj members, fuel + 1, depth, v, rest, hb, hr, hf => by
    rw [Cst.build] at hb
    split at hb
    · rename_i hn
      rw [Option.map_eq_some_iff] at hb
      obtain ⟨es, hes, rfl⟩ := hb
      obtain ⟨vs, hvs, he⟩ := Option.bind_eq_some_iff.mp hes
      have hread := members.read fuel rest hvs (by rw [Cst.text, List.length_cons] at hf; omega)
      rw [Cst.text, List.cons_append, Reader.value, if_pos rfl, if_pos hn, if_neg (members.skipLayout_text_head rest), hread]
      show (r.entries vs).bind _ = _
      rw [he]
      rfl
    · cases hb

theorem CstItems.read : ∀ (c : CstItems) (fuel : Nat) {depth : Nat} {vs : List (Value ν)} (rest : Units),
    c.build s depth = some vs → c.text.length < fuel → r.items fuel depth (c.text ++ rest) = some (vs, rest)
  | _, 0, _, _, _, _, hf => absurd hf (Nat.not_lt_zero _)
  | .last pre v post, fuel + 1, depth, vs, rest, hb, hf => by
    rw [CstItems.build, Option.map_eq_some_iff] at hb
    obtain ⟨x, hx, rfl⟩ := hb
    rw [CstItems.text] at hf ⊢
    simp only [List.length_append, List.length_cons, List.length_nil] at hf
    have hread := v.read fuel _ hx (stops_layout post (stops_cons bracket_stops rest)) (by omega)
    simp only [List.append_assoc, List.singleton_append]
    rw [Reader.items, skipLayout_layout, v.skipLayout_text, hread]
    show (match skipLayout (post.1 ++ unit ']' :: rest) with | [] => none | c :: rest => _) = _
    rw [skipLayout_layout, skipLayout_cons (by decide)]
    rfl
  | .cons pre v post more, fuel + 1, depth, vs, rest, hb, hf => by
    simp only [CstItems.build, Option.bind_eq_bind, Option.bind_eq_some_iff, Option.pure_def, Option.some.injEq] at hb
    obtain ⟨x, hx, xs, hxs, rfl⟩ := hb
    rw [CstItems.text] at hf ⊢
    simp only [List.length_append, List.length_cons] at hf
    have hread := v.read fuel _ hx (stops_layout post (stops_cons comma_stops (more.text ++ rest))) (by omega)
    have hmore := more.read fuel rest hxs (by omega)
    simp only [List.append_assoc, List.cons_append]
    rw [Reader.items, skipLayout_layout, v.skipLayout_text, hread]
    show (match skipLayout (post.1 ++ unit ',' :: (more.text ++ rest)) with | [] => none | c :: rest => _) = _
    rw [skipLayout_layout, skipLayout_cons (by decide)]
    show (Option.bind (r.items fuel depth (more.text ++ rest)) _) = _
    rw [hmore]
    rfl

theorem CstMembers.read : ∀ (c : CstMembers) (fuel : Nat) {depth : Nat} {vs : List (Units × Value ν)} (rest : Units),
    c.build s depth = some vs → c.text.length < fuel → r.members fuel depth (c.text ++ rest) = some (vs, rest)
  | _, 0, _, _, _, _, hf => absurd hf (Nat.not_lt_zero _)
  | .last pre name mid sep v post, fuel + 1, depth, vs, rest, hb, hf => by
    simp only [CstMembers.build, Option.bind_eq_bind, Option.bind_eq_some_iff, Option.pure_def, Option.some.injEq] at hb
    obtain ⟨t, ht, x, hx, rfl⟩ := hb
    rw [CstMembers.text] at hf ⊢
    simp only [List.length_append, List.length_cons, List.length_nil] at hf
    have hread := v.read fuel _ hx (stops_layout post (stops_cons brace_stops rest)) (by omega)
    have hname := s.string_complete (mid.1 ++ unit ':' :: (sep.1 ++ (v.text ++ (post.1 ++ unit '\x7d' :: rest)))) ht
    simp only [quotedText, List.append_assoc, List.cons_append, List.nil_append]
    rw [Reader.members, skipLayout_layout, skipLayout_cons (by decide)]
    simp only [↓reduceIte]
    rw [hname]
    show (match skipLayout (mid.1 ++ unit ':' :: (sep.1 ++ (v.text ++ (post.1 ++ unit '\x7d' :: rest)))) with
      | [] => none | c :: rest => _) = _
    rw [skipLayout_layout, skipLayout_cons (by decide)]
    simp only [↓reduceIte]
    rw [skipLayout_layout, v.skipLayout_text, hread]
    show (match skipLayout (post.1 ++ unit '\x7d' :: rest) with | [] => none | c :: rest => _) = _
    rw [skipLayout_layout, skipLayout_cons (by decide)]
    rfl
  | .cons pre name mid sep v post more, fuel + 1, depth, vs, rest, hb, hf => by
    simp only [CstMembers.build, Option.bind_eq_bind, Option.bind_eq_some_iff, Option.pure_def, Option.some.injEq] at hb
    obtain ⟨t, ht, x, hx, xs, hxs, rfl⟩ := hb
    rw [CstMembers.text] at hf ⊢
    simp only [List.length_append, List.length_cons] at hf
    have hread := v.read fuel _ hx (stops_layout post (stops_cons comma_stops (more.text ++ rest))) (by omega)
    have hmore := more.read fuel rest hxs (by omega)
    have hname := s.string_complete
      (mid.1 ++ unit ':' :: (sep.1 ++ (v.text ++ (post.1 ++ unit ',' :: (more.text ++ rest))))) ht
    simp only [quotedText, List.append_assoc, List.cons_append, List.nil_append]
    rw [Reader.members, skipLayout_layout, skipLayout_cons (by decide)]
    simp only [↓reduceIte]
    rw [hname]
    show (match skipLayout (mid.1 ++ unit ':' :: (sep.1 ++ (v.text ++ (post.1 ++ unit ',' :: (more.text ++ rest))))) with
      | [] => none | c :: rest => _) = _
    rw [skipLayout_layout, skipLayout_cons (by decide)]
    simp only [↓reduceIte]
    rw [skipLayout_layout, v.skipLayout_text, hread]
    show (match skipLayout (post.1 ++ unit ',' :: (more.text ++ rest)) with | [] => none | c :: rest => _) = _
    rw [skipLayout_layout, skipLayout_cons (by decide)]
    show (Option.bind (r.members fuel depth (more.text ++ rest)) _) = _
    rw [hmore]
    rfl

end

/-- A reader accepts a text exactly when a tree that it gives a value spells it. -/
theorem Reader.parse_iff {text : Units} {v : Value ν} : r.parse text = some v ↔
    ∃ (pre : Layout) (c : Cst) (post : Layout), text = pre.1 ++ (c.text ++ post.1) ∧ c.build s 0 = some v := by
  have hstop : ∀ post : Layout, Stops post.1 := fun post => by
    have h := stops_layout post stops_nil
    rwa [List.append_nil] at h
  have hend : ∀ post : Layout, skipLayout post.1 = [] := fun post => by
    have h := skipLayout_layout post []
    rwa [List.append_nil] at h
  constructor
  · intro h
    simp only [Reader.parse, Option.bind_eq_bind, Option.bind_eq_some_iff, Prod.exists] at h
    obtain ⟨v', rest, hv, h⟩ := h
    split at h
    · rename_i hrest
      rw [Option.pure_def, Option.some.injEq] at h
      obtain ⟨pre, hpre⟩ := skipLayout_split text
      obtain ⟨post, hpost⟩ := skipLayout_split rest
      obtain ⟨c, hc, hb⟩ := (readSound (s := s) _).value hv
      rw [List.isEmpty_iff.mp hrest, List.append_nil] at hpost
      exact ⟨pre, c, post, by rw [← hpost, ← hc, ← hpre], h ▸ hb⟩
    · cases h
  · rintro ⟨pre, c, post, rfl, hb⟩
    have hread := c.read s ((pre.1 ++ (c.text ++ post.1)).length + 1) _ hb (hstop post) (by simp; omega)
    rw [Reader.parse, skipLayout_layout, c.skipLayout_text, hread]
    show (if (skipLayout post.1).isEmpty = true then _ else _) = _
    rw [hend post]
    rfl

end

/-! ## Numbers as runs -/

/-- The longest run of the units of numbers. -/
theorem takeWhile_isNumeric {l rest : Units} (h : ∀ u ∈ l, isNumeric u = true) (hr : Stops rest) :
    (l ++ rest).takeWhile isNumeric = l ∧ (l ++ rest).dropWhile isNumeric = rest := by
  have hstop : rest.takeWhile isNumeric = [] ∧ rest.dropWhile isNumeric = rest := by
    cases rest with
    | nil => exact ⟨rfl, rfl⟩
    | cons u rest =>
      have hu : isNumeric u = false := hr u rfl
      exact ⟨List.takeWhile_cons_of_neg (by simp [hu]), List.dropWhile_cons_of_neg (by simp [hu])⟩
  constructor
  · rw [List.takeWhile_append_of_pos h, hstop.1, List.append_nil]
  · rw [List.dropWhile_append_of_pos h, hstop.2]

/-- The run of a number, read as a literal of a form and then as a number. -/
def readRun {ν : Type} (number : Units → Option ν) (input : Units) : Option (ν × Units) :=
  (number (input.takeWhile isNumeric)).map fun n => (n, input.dropWhile isNumeric)

theorem readRun_sound {ν : Type} (number : Units → Option ν) (hn : ∀ {l n}, number l = some n → numberForm l = true)
    {input : Units} {n : ν} {rest : Units} (h : readRun number input = some (n, rest)) :
    ∃ l : Numeral, input = l.1 ++ rest ∧ number l.1 = some n := by
  obtain ⟨m, hm, heq⟩ := Option.map_eq_some_iff.mp h
  obtain ⟨rfl, rfl⟩ := Prod.mk.inj heq
  exact ⟨⟨_, hn hm⟩, List.takeWhile_append_dropWhile.symm, hm⟩

theorem readRun_complete {ν : Type} (number : Units → Option ν) {l : Numeral} {n : ν} {rest : Units}
    (h : number l.1 = some n) (hr : Stops rest) : readRun number (l.1 ++ rest) = some (n, rest) := by
  obtain ⟨ht, hd⟩ := takeWhile_isNumeric (all_isNumeric l.2) hr
  rw [readRun, ht, hd, h]
  rfl

/-! ## The strings of what is built -/

section
variable {ν : Type} {r : Reader ν} (s : Spelling r) {p : List Piece → Bool}

mutual

/-- Every string of a tree with a value is written as the reader wants. -/
theorem Cst.build_strings (hp : ∀ {ps u}, s.string ps = some u → p ps = true) : ∀ (c : Cst) {depth : Nat} {v : Value ν},
    c.build s depth = some v → c.strings p = true
  | .null, _, _, _ => rfl
  | .bool _, _, _, _ => rfl
  | .num _, _, _, _ => rfl
  | .str _, _, _, h => by
    obtain ⟨_, hu, _⟩ := Option.map_eq_some_iff.mp h
    exact hp hu
  | .noItems _, _, _, _ => rfl
  | .arr items, _, _, h => by
    rw [Cst.build] at h
    split at h
    · obtain ⟨_, hvs, _⟩ := Option.map_eq_some_iff.mp h
      exact items.build_strings hp hvs
    · cases h
  | .noMembers _, _, _, _ => rfl
  | .obj members, _, _, h => by
    rw [Cst.build] at h
    split at h
    · obtain ⟨_, hes, _⟩ := Option.map_eq_some_iff.mp h
      obtain ⟨_, hms, _⟩ := Option.bind_eq_some_iff.mp hes
      exact members.build_strings hp hms
    · cases h

theorem CstItems.build_strings (hp : ∀ {ps u}, s.string ps = some u → p ps = true) :
    ∀ (c : CstItems) {depth : Nat} {vs : List (Value ν)}, c.build s depth = some vs → c.strings p = true
  | .last _ v _, _, _, h => by
    obtain ⟨_, hx, _⟩ := Option.map_eq_some_iff.mp h
    exact v.build_strings hp hx
  | .cons _ v _ rest, _, _, h => by
    simp only [CstItems.build, Option.bind_eq_bind, Option.bind_eq_some_iff] at h
    obtain ⟨_, hx, _, hxs, _⟩ := h
    rw [CstItems.strings, v.build_strings hp hx, rest.build_strings hp hxs]
    rfl

theorem CstMembers.build_strings (hp : ∀ {ps u}, s.string ps = some u → p ps = true) :
    ∀ (c : CstMembers) {depth : Nat} {vs : List (Units × Value ν)}, c.build s depth = some vs → c.strings p = true
  | .last _ _ _ _ v _, _, _, h => by
    simp only [CstMembers.build, Option.bind_eq_bind, Option.bind_eq_some_iff] at h
    obtain ⟨_, hu, _, hx, _⟩ := h
    rw [CstMembers.strings, hp hu, v.build_strings hp hx]
    rfl
  | .cons _ _ _ _ v _ rest, _, _, h => by
    simp only [CstMembers.build, Option.bind_eq_bind, Option.bind_eq_some_iff] at h
    obtain ⟨_, hu, _, hx, _, hxs, _⟩ := h
    rw [CstMembers.strings, hp hu, v.build_strings hp hx, rest.build_strings hp hxs]
    rfl

end

end

end Desk
