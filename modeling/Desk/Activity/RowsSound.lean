import Mathlib.Order.MinMax
import Desk.Activity.Rows
import Desk.Lib.Woven

/-!
# Loading more activity

The rows shown are ordered by their places, and every loaded row is shown or held.
The rows shown of a later loaded part begin with those shown before exactly where
no record that was added ties with a row shown, or has a creating entry that a
loaded record of its list has not, and so comes before a row shown.
-/

namespace Desk

namespace Activity

/-! ## Places -/

theorem place_le_place {s t : Spot} : s.place ≤ t.place ↔ s ≤ t := by
  rw [Spot.place, Spot.place, WithBot.coe_le_coe, WithTop.coe_le_coe]

theorem lowest_eq (a b : Place) : lowest a b = min a b := by
  rw [lowest]
  split
  · next h => exact (min_eq_right h.le).symm
  · next h => exact (min_eq_left (not_lt.mp h)).symm

theorem raise_le_iff (boundary : Place) (f : StreamName × Place) (p : Place) :
    raise boundary f ≤ p ↔ boundary ≤ p ∧ f.2 ≤ p := by
  rw [raise]
  split
  · next h => exact ⟨fun hp => ⟨h.le.trans hp, hp⟩, And.right⟩
  · next h => exact ⟨fun hp => ⟨hp, (not_lt.mp h).trans hp⟩, And.left⟩

theorem foldl_raise_le_iff (fs : List (StreamName × Place)) (boundary p : Place) :
    fs.foldl raise boundary ≤ p ↔ boundary ≤ p ∧ ∀ f ∈ fs, f.2 ≤ p := by
  induction fs generalizing boundary with
  | nil => simp
  | cons f fs ih =>
    rw [List.foldl_cons, ih, raise_le_iff, List.forall_mem_cons, and_assoc]

/-- The floor of a list is that of its oldest row. -/
theorem floor_le_iff {created : Units → Option Nat} {rows : List ActivityRow} {s : Spot} :
    floor created rows ≤ s.place ↔ ∃ z ∈ rows, floorSpot (spotOf created z) ≤ s := by
  have hfold : ∀ (rows : List ActivityRow) (p : Place),
      rows.foldl (fun oldest row => lowest oldest (floorSpot (spotOf created row)).place) p ≤ s.place ↔
        p ≤ s.place ∨ ∃ z ∈ rows, floorSpot (spotOf created z) ≤ s := by
    intro rows
    induction rows with
    | nil => simp
    | cons z rows ih =>
      intro p
      rw [List.foldl_cons, ih, lowest_eq, min_le_iff, place_le_place, List.exists_mem_cons_iff, or_assoc]
  rw [floor, hfold]
  refine ⟨fun h => h.resolve_left fun htop => ?_, .inr⟩
  rw [nothingShown, Spot.place, WithBot.coe_le_coe, top_le_iff] at htop
  exact WithTop.coe_ne_top htop

/-- No list with more pages holds back what stands here. -/
def Unheld (created : Units → Option Nat) (limits : List (List ActivityRow)) (s : Spot) : Prop :=
  ∀ rows ∈ limits, ∃ z ∈ rows, floorSpot (spotOf created z) ≤ s

/-- The loaded rows of the lists with more pages. -/
def limitsOf (runs occurrences : List ActivityRow) (moreRuns moreOccurrences : Bool) : List (List ActivityRow) :=
  (if moreRuns then [runs] else []) ++ if moreOccurrences then [occurrences] else []

theorem boundary_le_iff {created : Units → Option Nat} {runs occurrences : List ActivityRow}
    {moreRuns moreOccurrences : Bool} {s : Spot} :
    (floors created runs occurrences moreRuns moreOccurrences).foldl raise ⊥ ≤ s.place ↔
      Unheld created (limitsOf runs occurrences moreRuns moreOccurrences) s := by
  rw [foldl_raise_le_iff, floors, limitsOf, Unheld, and_iff_right bot_le]
  cases moreRuns <;> cases moreOccurrences <;> simp [floor_le_iff]

/-! ## The order of the rows -/

instance : IsTrans Placed Placed.before := ⟨fun a b c (hab : a.rank ≤ b.rank) (hbc : b.rank ≤ c.rank) => hab.trans hbc⟩

instance : Std.Total Placed.before := ⟨fun a b => le_total a.rank b.rank⟩

theorem before_iff {a b : Placed} : a.before b ↔
    b.at_ < a.at_ ∨ a.at_ = b.at_ ∧ a.row.key.map UInt16.toNat ≤ b.row.key.map UInt16.toNat := by
  rw [Placed.before, Placed.rank, Placed.rank, Prod.Lex.toLex_le_toLex]
  exact Iff.rfl

theorem le_of_before {a b : Placed} (h : a.before b) : b.at_ ≤ a.at_ := by
  rcases before_iff.mp h with h | ⟨h, -⟩
  · exact h.le
  · exact h.ge

/-- Rows that stand together have one place and one key. -/
theorem together {a b : Placed} (hab : a.before b) (hba : b.before a) : a.at_ = b.at_ ∧ a.row.key = b.row.key := by
  have hrank : a.rank = b.rank := le_antisymm hab hba
  rw [Placed.rank, Placed.rank] at hrank
  obtain ⟨hspot, hkey⟩ := Prod.mk.inj (toLex.injective hrank)
  exact ⟨OrderDual.toDual.injective hspot, List.map_injective_iff.mpr (fun _ _ => UInt16.toNat_inj.mp) hkey⟩

/-! ## Lists that are served -/

/-- No first time is later than one before it, and the creating entries stand in the order of the list. -/
def Served (created : Units → Option Nat) (rows : List ActivityRow) : Prop :=
  rows.Pairwise fun a b => b.first.time ≤ a.first.time ∧ ∀ p q, created a.key = some p → created b.key = some q → q < p

theorem floorSpot_time (time : Int) : floorSpot (timeSpot time) = timeSpot time := if_neg (by simp [timeSpot])

theorem floorSpot_created (p : Nat) : floorSpot (createdSpot p) = entrySpot p := by
  rw [floorSpot, createdSpot, entrySpot, if_pos (by rfl)]
  simp

theorem timeSpot_le {s t : Int} : timeSpot s ≤ timeSpot t ↔ s ≤ t := by
  rw [timeSpot, timeSpot, Prod.Lex.toLex_le_toLex]
  simp

theorem timeSpot_lt_entrySpot (t : Int) (p : Nat) : timeSpot t < entrySpot p := by
  rw [timeSpot, entrySpot, Prod.Lex.toLex_lt_toLex]
  exact .inl Nat.zero_lt_one

theorem createdSpot_lt_entrySpot {p q : Nat} (h : q < p) : createdSpot q < entrySpot p := by
  rw [createdSpot, entrySpot, Prod.Lex.toLex_lt_toLex]
  refine .inr ⟨rfl, ?_⟩
  dsimp only
  omega

/-- A record that is served later stands no higher than the floor of one before, unless only it has a creating entry. -/
theorem spot_le_floor {created : Units → Option Nat} {z x : ActivityRow} (htime : x.first.time ≤ z.first.time)
    (horder : ∀ p q, created z.key = some p → created x.key = some q → q < p)
    (hboth : (created x.key).isSome = true → (created z.key).isSome = true) :
    spotOf created x ≤ floorSpot (spotOf created z) ∧
      ((created x.key).isSome = true → spotOf created x < floorSpot (spotOf created z)) := by
  unfold spotOf
  cases hz : created z.key with
  | none =>
    cases hx : created x.key with
    | none =>
      rw [floorSpot_time]
      exact ⟨timeSpot_le.mpr htime, nofun⟩
    | some q =>
      rw [hz, hx] at hboth
      cases hboth rfl
  | some p =>
    rw [floorSpot_created]
    cases hx : created x.key with
    | none => exact ⟨(timeSpot_lt_entrySpot _ p).le, nofun⟩
    | some q =>
      have hlt := createdSpot_lt_entrySpot (horder p q hz hx)
      exact ⟨hlt.le, fun _ => hlt⟩

/-- Nothing that was added ties with a row shown that comes behind it by its key, and what has a creating entry that a
loaded record of its list has not comes behind every row shown. -/
structure Undisturbed (created : Units → Option Nat) (keep : ActivityRow → Bool) (streams : List (List ActivityRow × List ActivityRow))
    (limits : List (List ActivityRow)) (placed : List Placed) : Prop where
  ties : ∀ s ∈ streams, ∀ x ∈ s.2, keep x = true → created x.key = none →
    ∀ t ∈ streams, ∀ y ∈ t.1, keep y = true → created y.key = none → y.first.time = x.first.time →
      Unheld created limits (timeSpot y.first.time) → y.key.map UInt16.toNat ≤ x.key.map UInt16.toNat
  created : ∀ s ∈ streams, ∀ x ∈ s.2, keep x = true → (created x.key).isSome = true → (∃ z ∈ s.1, created z.key = none) →
    ∀ y ∈ placed, Unheld created limits y.at_ → y.before (placeRecord created x)

section
variable {created : Units → Option Nat} {keep : ActivityRow → Bool} {runs occurrences addedRuns addedOccurrences : List ActivityRow}
  {windowed : List Placed} {limits : List (List ActivityRow)}

variable (created keep runs occurrences windowed) in
/-- The rows placed of two lists. -/
def placedRows : List Placed := ((runs ++ occurrences).filter keep).map (placeRecord created) ++ windowed

/-- What stands at the place of a time is the row of a record without a creating entry. -/
theorem spot_eq_time {row : ActivityRow} {time : Int} (h : spotOf created row = timeSpot time) :
    created row.key = none ∧ row.first.time = time := by
  unfold spotOf at h
  split at h
  · next hnone => exact ⟨hnone, (Prod.mk.inj (toLex.injective h)).2⟩
  · cases (Prod.mk.inj (toLex.injective h)).1

theorem mem_placedRows {y : Placed} : y ∈ placedRows created keep runs occurrences windowed ↔
    (∃ row, (row ∈ runs ∨ row ∈ occurrences) ∧ keep row = true ∧ placeRecord created row = y) ∨ y ∈ windowed := by
  rw [placedRows, List.mem_append, List.mem_map]
  simp only [List.mem_filter, List.mem_append, and_assoc]

/-- One list: what it adds comes behind the rows shown exactly where it disturbs none of them. -/
theorem added_behind {rows added : List ActivityRow} (hserved : Served created (rows ++ added)) (hlimit : rows ∈ limits)
    {x : ActivityRow} (hx : x ∈ added) {y : Placed} (hy : Unheld created limits y.at_)
    (hboth : (created x.key).isSome = true → ∀ z ∈ rows, (created z.key).isSome = true) :
    spotOf created x < y.at_ ∨ spotOf created x = y.at_ ∧ created x.key = none := by
  obtain ⟨z, hz, hfloor⟩ := hy rows hlimit
  obtain ⟨htime, horder⟩ := (List.pairwise_append.mp hserved).2.2 z hz x hx
  obtain ⟨hle, hlt⟩ := spot_le_floor htime horder fun h => hboth h z hz
  cases hcreated : created x.key with
  | some p =>
    rw [hcreated] at hlt
    exact .inl ((hlt rfl).trans_le hfloor)
  | none =>
    rcases (hle.trans hfloor).lt_or_eq with h | h
    · exact .inl h
    · exact .inr ⟨h, rfl⟩

/-- What is added comes behind every row shown, exactly where nothing is disturbed. -/
theorem behind_iff {streams : List (List ActivityRow × List ActivityRow)}
    (hstreams : ∀ s ∈ streams, Served created (s.1 ++ s.2) ∧ (s.2 ≠ [] → s.1 ∈ limits))
    (hrows : ∀ row, (∃ s ∈ streams, row ∈ s.1) ↔ row ∈ runs ∨ row ∈ occurrences)
    (hwindowed : ∀ y ∈ windowed, ∃ p, y.at_ = entrySpot p) :
    (∀ s ∈ streams, ∀ x ∈ s.2, keep x = true →
      ∀ y ∈ placedRows created keep runs occurrences windowed, Unheld created limits y.at_ → y.before (placeRecord created x)) ↔
      Undisturbed created keep streams limits (placedRows created keep runs occurrences windowed) := by
  constructor
  · intro hall
    refine ⟨fun s hs x hx hkeep hnone t ht y hy hkeepy hnoney htime hunheld => ?_, fun s hs x hx hkeep _ _ => hall s hs x hx hkeep⟩
    have hplaced : placeRecord created y ∈ placedRows created keep runs occurrences windowed :=
      mem_placedRows.mpr (.inl ⟨y, (hrows y).mp ⟨t, ht, hy⟩, hkeepy, rfl⟩)
    have hspot : spotOf created y = timeSpot y.first.time := by rw [spotOf, hnoney]
    have hspotx : spotOf created x = timeSpot x.first.time := by rw [spotOf, hnone]
    have hbefore := hall s hs x hx hkeep _ hplaced (by rw [placeRecord, hspot]; exact hunheld)
    rcases before_iff.mp hbefore with hlt | ⟨-, hkey⟩
    · rw [placeRecord, placeRecord, hspot, hspotx, htime] at hlt
      exact absurd hlt (lt_irrefl _)
    · exact hkey
  · intro hundisturbed s hs x hx hkeep y hy hunheld
    obtain ⟨hserved, hlimit⟩ := hstreams s hs
    by_cases hboth : (created x.key).isSome = true → ∀ z ∈ s.1, (created z.key).isSome = true
    · rcases added_behind hserved (hlimit (List.ne_nil_of_mem hx)) hx hunheld hboth with hlt | ⟨heq, hnone⟩
      · exact before_iff.mpr (.inl hlt)
      · -- the row shown was first recorded at the same time
        have htime : y.at_ = timeSpot x.first.time := by rw [← heq, spotOf, hnone]
        rcases mem_placedRows.mp hy with ⟨row, hrow, hkeeprow, rfl⟩ | hy
        · obtain ⟨hnoney, hsame⟩ := spot_eq_time htime
          obtain ⟨t, ht, hrow⟩ := (hrows row).mpr hrow
          have hspot : (placeRecord created row).at_ = timeSpot row.first.time := by rw [htime, hsame]
          rw [hspot] at hunheld
          refine before_iff.mpr (.inr ⟨heq.symm, ?_⟩)
          exact hundisturbed.ties s hs x hx hkeep hnone t ht row hrow hkeeprow hnoney hsame hunheld
        · obtain ⟨p, hp⟩ := hwindowed y hy
          rw [htime] at hp
          exact absurd hp (timeSpot_lt_entrySpot _ p).ne
    · rw [Classical.not_imp] at hboth
      obtain ⟨hsome, hnot⟩ := hboth
      rw [not_forall] at hnot
      obtain ⟨z, hz⟩ := hnot
      rw [Classical.not_imp, Option.not_isSome_iff_eq_none] at hz
      exact hundisturbed.created s hs x hx hkeep hsome ⟨z, hz⟩ y hy hunheld

end

/-! ## Loading more -/

section
variable {T : Type}

/-- The front of a list that is loaded, with more where records remain. -/
def load (list : Option (List T)) (n : Nat) : Option (Loaded T) :=
  list.map fun records => ⟨records.take n, decide (n < records.length)⟩

/-- The rows of the records that loading more adds. -/
def addedRows (row : T → Option ActivityRow) (list : Option (List T)) (n n' : Nat) : List ActivityRow :=
  (((list.getD []).take n').drop n).filterMap row

variable {row : T → Option ActivityRow} {list : Option (List T)} {n n' : Nat}

theorem rowsOf_load (n : Nat) : rowsOf row (load list n) = ((list.getD []).take n).filterMap row := by
  cases list with
  | none => simp [rowsOf, load]
  | some records => rfl

theorem rowsOf_more (h : n ≤ n') : rowsOf row (load list n') = rowsOf row (load list n) ++ addedRows row list n n' := by
  have hsplit := List.take_append_drop n ((list.getD []).take n')
  rw [List.take_take, Nat.min_eq_left h] at hsplit
  rw [rowsOf_load, rowsOf_load, addedRows, ← List.filterMap_append, hsplit]

theorem hasMore_load : hasMore (load list n) = true ↔ n < (list.getD []).length := by
  cases list with
  | none => simp [hasMore, load]
  | some records => simp [hasMore, load]

theorem hasMore_of_added (h : addedRows row list n n' ≠ []) : hasMore (load list n) = true := by
  rw [hasMore_load]
  by_contra hle
  rw [not_lt] at hle
  apply h
  rw [addedRows, List.drop_of_length_le, List.filterMap_nil]
  exact (List.length_take_le' n' _).trans hle

theorem served_more {created : Units → Option Nat} (hserved : Served created ((list.getD []).filterMap row)) (h : n ≤ n') :
    Served created (rowsOf row (load list n) ++ addedRows row list n n') := by
  rw [← rowsOf_more h, rowsOf_load]
  exact hserved.sublist ((List.take_sublist n' _).filterMap row)

end

theorem runKey_ne_occurrenceKey (id id' : Units) : runKey id ≠ occurrenceKey id' := by
  intro h
  have hfirst := (List.cons.inj h).1
  revert hfirst
  decide

theorem time_of_stamp {dateParse : Units → Option Int} {name : StampName} {at_ : Option Units} {s : Stamp}
    (h : stamp dateParse name at_ = some s) : ∃ text, dateParse text = some s.time := by
  obtain ⟨text, -, h⟩ := Option.bind_eq_some_iff.mp h
  dsimp only at h
  split at h
  · cases h
  · obtain ⟨time, htime, h⟩ := Option.bind_eq_some_iff.mp h
    cases h
    exact ⟨text, htime⟩

theorem key_runRow {dateParse : Units → Option Int} {run : Run} {row : ActivityRow} (h : runRow dateParse run = some row) :
    row.key = runKey run.id ∧ stamp dateParse .submitted (some run.createdAt) = some row.first := by
  obtain ⟨first, hfirst, h⟩ := Option.bind_eq_some_iff.mp h
  cases h
  exact ⟨rfl, hfirst⟩

theorem key_occurrenceRow {dateParse : Units → Option Int} {o : Occurrence} {row : ActivityRow}
    (h : occurrenceRow dateParse o = some row) : row.key = occurrenceKey o.id := by
  obtain ⟨first, -, h⟩ := Option.bind_eq_some_iff.mp h
  cases h
  rfl

def ShownRow.spot (created : Units → Option Nat) : ShownRow → Spot
  | .record row => spotOf created row
  | .journal row => entrySpot row.place

theorem mem_windowed {journal : Option JournalWindow} {y : Placed} (h : y ∈ windowed journal) :
    ∃ row, y = ⟨.journal row, entrySpot row.place⟩ := by
  cases journal with
  | none => cases h
  | some journal =>
    rw [windowed] at h
    split at h
    · obtain ⟨entry, -, rfl⟩ := List.mem_map.mp h
      exact ⟨_, rfl⟩
    · cases h

theorem at_of_placed {created : Units → Option Nat} {keep : ActivityRow → Bool} {runs occurrences : List ActivityRow}
    {journal : Option JournalWindow} {y : Placed} (h : y ∈ placedRows created keep runs occurrences (windowed journal)) :
    y.at_ = y.row.spot created := by
  rcases mem_placedRows.mp h with ⟨row, -, -, rfl⟩ | h
  · rfl
  · obtain ⟨row, rfl⟩ := mem_windowed h
    rfl

/-- A row tells where it is placed. -/
theorem map_row_grows {spot : ShownRow → Spot} {l l' : List Placed} (hl : ∀ y ∈ l, y.at_ = spot y.row)
    (hl' : ∀ y ∈ l', y.at_ = spot y.row) : l.map Placed.row <+: l'.map Placed.row ↔ l <+: l' := by
  have hback : ∀ {l : List Placed}, (∀ y ∈ l, y.at_ = spot y.row) → (l.map Placed.row).map (fun row => ⟨row, spot row⟩) = l := by
    intro l hl
    rw [List.map_map]
    refine (List.map_congr_left fun y hy => ?_).trans (List.map_id l)
    rw [Function.comp_apply, ← hl y hy]
    rfl
  refine ⟨fun h => ?_, fun h => h.map _⟩
  rw [← hback hl, ← hback hl']
  exact h.map _

section
variable {created : Units → Option Nat} {keep : ActivityRow → Bool} {runs occurrences addedRuns addedOccurrences : List ActivityRow}

theorem mem_place_filter {rows : List ActivityRow} {y : Placed} :
    y ∈ (rows.filter keep).map (placeRecord created) ↔ ∃ row ∈ rows, keep row = true ∧ placeRecord created row = y := by
  rw [List.mem_map]
  simp only [List.mem_filter, and_assoc]

/-- The rows that are added are woven into those that were placed. -/
theorem woven_rows {journal : Option JournalWindow} (hruns : ∀ row ∈ addedRuns, ∃ id, row.key = runKey id)
    (hoccurrences : ∀ row ∈ occurrences, ∃ id, row.key = occurrenceKey id) :
    Woven Placed.before (placedRows created keep runs occurrences (windowed journal))
      (((addedRuns ++ addedOccurrences).filter keep).map (placeRecord created))
      (placedRows created keep (runs ++ addedRuns) (occurrences ++ addedOccurrences) (windowed journal)) := by
  have hentry : ∀ (row : ActivityRow), ∀ b ∈ windowed journal,
      ¬ ((placeRecord created row).before b ∧ b.before (placeRecord created row)) := by
    rintro row b hb ⟨hab, hba⟩
    obtain ⟨entry, rfl⟩ := mem_windowed hb
    obtain ⟨hspot, -⟩ := together hab hba
    rw [placeRecord, spotOf] at hspot
    split at hspot
    · exact absurd hspot (timeSpot_lt_entrySpot _ _).ne
    · have hhalf := (Prod.mk.inj (toLex.injective hspot)).2
      omega
  have hnil : Woven Placed.before (windowed journal) [] (windowed journal) := by
    have h := Woven.prepend_old (.nil (r := Placed.before)) (windowed journal)
    rwa [List.append_nil] at h
  have hadded : Woven Placed.before (windowed journal) ((addedOccurrences.filter keep).map (placeRecord created))
      ((addedOccurrences.filter keep).map (placeRecord created) ++ windowed journal) := by
    have h := hnil.prepend_new ((addedOccurrences.filter keep).map (placeRecord created)) fun x hx b hb => by
      obtain ⟨row, -, -, rfl⟩ := mem_place_filter.mp hx
      exact hentry row b hb
    rwa [List.append_nil] at h
  have hold := hadded.prepend_old ((occurrences.filter keep).map (placeRecord created))
  have hnew := hold.prepend_new ((addedRuns.filter keep).map (placeRecord created)) fun x hx b hb => by
    obtain ⟨row, hrow, -, rfl⟩ := mem_place_filter.mp hx
    rcases List.mem_append.mp hb with hb | hb
    · obtain ⟨row', hrow', -, rfl⟩ := mem_place_filter.mp hb
      rintro ⟨hab, hba⟩
      obtain ⟨-, hkey⟩ := together hab hba
      obtain ⟨id, hid⟩ := hruns row hrow
      obtain ⟨id', hid'⟩ := hoccurrences row' hrow'
      have hkey : row.key = row'.key := hkey
      exact runKey_ne_occurrenceKey id id' (hid ▸ hid' ▸ hkey)
    · exact hentry row b hb
  have hall := hnew.prepend_old ((runs.filter keep).map (placeRecord created))
  simpa only [placedRows, List.filter_append, List.map_append, List.append_assoc] using hall

end

section
variable (dateParse : Units → Option Int) (runs : Option (List Run)) (occurrences : Option (List Occurrence))
  (keep : ActivityRow → Bool) (journal : Option JournalWindow) (n m : Nat)

/-- The rows that the merge of the loaded part places. -/
def placedOf : List Placed :=
  placedRows (createdIn journal) keep (rowsOf (runRow dateParse) (load runs n)) (rowsOf (occurrenceRow dateParse) (load occurrences m))
    (windowed journal)

/-- The loaded rows of the lists with more records. -/
def limiting : List (List ActivityRow) :=
  limitsOf (rowsOf (runRow dateParse) (load runs n)) (rowsOf (occurrenceRow dateParse) (load occurrences m))
    (hasMore (load runs n)) (hasMore (load occurrences m))

/-- The loaded rows of each list, and the rows that loading more adds. -/
def streams (n' m' : Nat) : List (List ActivityRow × List ActivityRow) :=
  [(rowsOf (runRow dateParse) (load runs n), addedRows (runRow dateParse) runs n n'),
    (rowsOf (occurrenceRow dateParse) (load occurrences m), addedRows (occurrenceRow dateParse) occurrences m m')]

/-- What is shown: the placed rows that no list holds back. -/
def isShown (y : Placed) : Bool :=
  decide ((floors (createdIn journal) (rowsOf (runRow dateParse) (load runs n)) (rowsOf (occurrenceRow dateParse) (load occurrences m))
    (hasMore (load runs n)) (hasMore (load occurrences m))).foldl raise ⊥ ≤ y.at_.place)

variable {dateParse runs occurrences keep journal n m}

theorem isShown_iff {y : Placed} : isShown dateParse runs occurrences journal n m y = true ↔
    Unheld (createdIn journal) (limiting dateParse runs occurrences n m) y.at_ := by
  rw [isShown, decide_eq_true_iff, boundary_le_iff, limiting]

theorem shown_eq : (mergeActivity dateParse (load runs n) (load occurrences m) keep journal).shown =
    (((placedOf dateParse runs occurrences keep journal n m).insertionSort Placed.before).filter
      (isShown dateParse runs occurrences journal n m)).map Placed.row := rfl

theorem held_eq : (mergeActivity dateParse (load runs n) (load occurrences m) keep journal).held =
    ((placedOf dateParse runs occurrences keep journal n m).insertionSort Placed.before).length -
      (mergeActivity dateParse (load runs n) (load occurrences m) keep journal).shown.length := rfl

theorem isShown_upward (a b : Placed) (h : a.before b) (hb : isShown dateParse runs occurrences journal n m b = true) :
    isShown dateParse runs occurrences journal n m a = true := by
  rw [isShown_iff] at hb ⊢
  intro rows hrows
  obtain ⟨z, hz, hle⟩ := hb rows hrows
  exact ⟨z, hz, hle.trans (le_of_before h)⟩

/-- A later loaded part holds back no row that was shown. -/
theorem isShown_more {n' m' : Nat} (hn : n ≤ n') (hm : m ≤ m') (a : Placed)
    (h : isShown dateParse runs occurrences journal n m a = true) : isShown dateParse runs occurrences journal n' m' a = true := by
  rw [isShown_iff] at h ⊢
  intro rows hrows
  rw [limiting, limitsOf, List.mem_append] at hrows
  have hof : ∀ rows ∈ limiting dateParse runs occurrences n m, ∃ z ∈ rows, floorSpot (spotOf (createdIn journal) z) ≤ a.at_ := h
  rcases hrows with hrows | hrows
  · split at hrows
    · next hmore =>
      have hfirst : hasMore (load runs n) = true := hasMore_load.mpr (hn.trans_lt (hasMore_load.mp hmore))
      obtain ⟨z, hz, hle⟩ := hof (rowsOf (runRow dateParse) (load runs n)) (by rw [limiting, limitsOf, if_pos hfirst]; simp)
      refine ⟨z, ?_, hle⟩
      rw [List.mem_singleton.mp hrows, rowsOf_more hn]
      exact List.mem_append_left _ hz
    · cases hrows
  · split at hrows
    · next hmore =>
      have hfirst : hasMore (load occurrences m) = true := hasMore_load.mpr (hm.trans_lt (hasMore_load.mp hmore))
      obtain ⟨z, hz, hle⟩ := hof (rowsOf (occurrenceRow dateParse) (load occurrences m))
        (by rw [limiting, limitsOf, if_pos hfirst]; simp)
      refine ⟨z, ?_, hle⟩
      rw [List.mem_singleton.mp hrows, rowsOf_more hm]
      exact List.mem_append_left _ hz
    · cases hrows

theorem woven_more {n' m' : Nat} (hn : n ≤ n') (hm : m ≤ m') :
    Woven Placed.before (placedOf dateParse runs occurrences keep journal n m)
      (((addedRows (runRow dateParse) runs n n' ++ addedRows (occurrenceRow dateParse) occurrences m m').filter keep).map
        (placeRecord (createdIn journal))) (placedOf dateParse runs occurrences keep journal n' m') := by
  rw [placedOf, placedOf, rowsOf_more hn, rowsOf_more hm]
  refine woven_rows (fun row hrow => ?_) fun row hrow => ?_
  · obtain ⟨run, -, hrun⟩ := List.mem_filterMap.mp hrow
    exact ⟨run.id, (key_runRow hrun).1⟩
  · obtain ⟨o, -, ho⟩ := List.mem_filterMap.mp hrow
    exact ⟨o.id, key_occurrenceRow ho⟩

theorem served_streams (hruns : Served (createdIn journal) ((runs.getD []).filterMap (runRow dateParse)))
    (hoccurrences : Served (createdIn journal) ((occurrences.getD []).filterMap (occurrenceRow dateParse))) {n' m' : Nat}
    (hn : n ≤ n') (hm : m ≤ m') : ∀ s ∈ streams dateParse runs occurrences n m n' m',
      Served (createdIn journal) (s.1 ++ s.2) ∧ (s.2 ≠ [] → s.1 ∈ limiting dateParse runs occurrences n m) := by
  rw [streams, List.forall_mem_cons, List.forall_mem_singleton]
  refine ⟨⟨served_more hruns hn, fun hadded => ?_⟩, served_more hoccurrences hm, fun hadded => ?_⟩
  · rw [limiting, limitsOf, if_pos (hasMore_of_added hadded)]
    exact List.mem_append_left _ (List.mem_singleton.mpr rfl)
  · rw [limiting, limitsOf, if_pos (hasMore_of_added hadded)]
    exact List.mem_append_right _ (List.mem_singleton.mpr rfl)

theorem mem_streams {n' m' : Nat} (row : ActivityRow) : (∃ s ∈ streams dateParse runs occurrences n m n' m', row ∈ s.1) ↔
    row ∈ rowsOf (runRow dateParse) (load runs n) ∨ row ∈ rowsOf (occurrenceRow dateParse) (load occurrences m) := by
  simp [streams]

/-- What is added and held stands behind all that was shown. -/
theorem before_of_held {n' m' : Nat} (hn : n ≤ n') (hm : m ≤ m') {x y : Placed}
    (hx : isShown dateParse runs occurrences journal n' m' x = false)
    (hy : isShown dateParse runs occurrences journal n m y = true) : y.before x := by
  rcases Std.Total.total (r := Placed.before) x y with hxy | hyx
  · rw [isShown_more hn hm x (isShown_upward x y hxy hy)] at hx
    cases hx
  · exact hyx

/-- What is added comes behind all that was shown, exactly where it disturbs none of it. -/
theorem added_behind_iff (hruns : Served (createdIn journal) ((runs.getD []).filterMap (runRow dateParse)))
    (hoccurrences : Served (createdIn journal) ((occurrences.getD []).filterMap (occurrenceRow dateParse))) {n' m' : Nat}
    (hn : n ≤ n') (hm : m ≤ m') :
    (∀ x ∈ ((addedRows (runRow dateParse) runs n n' ++ addedRows (occurrenceRow dateParse) occurrences m m').filter keep).map
        (placeRecord (createdIn journal)), ∀ y ∈ placedOf dateParse runs occurrences keep journal n m,
        isShown dateParse runs occurrences journal n m y = true → y.before x) ↔
      Undisturbed (createdIn journal) keep (streams dateParse runs occurrences n m n' m')
        (limiting dateParse runs occurrences n m) (placedOf dateParse runs occurrences keep journal n m) := by
  have hwindowed : ∀ y ∈ windowed journal, ∃ p, y.at_ = entrySpot p := by
    intro y hy
    obtain ⟨entry, rfl⟩ := mem_windowed hy
    exact ⟨entry.place, rfl⟩
  rw [placedOf, ← behind_iff (served_streams hruns hoccurrences hn hm) mem_streams hwindowed]
  constructor
  · intro hall s hs x hx hkeep y hy hunheld
    refine hall _ (mem_place_filter.mpr ⟨x, ?_, hkeep, rfl⟩) y hy (isShown_iff.mpr hunheld)
    rw [List.mem_append]
    rcases List.mem_cons.mp hs with rfl | hs
    · exact .inl hx
    · rw [List.mem_singleton.mp hs] at hx
      exact .inr hx
  · intro hall x hx y hy hshown
    obtain ⟨row, hrow, hkeep, rfl⟩ := mem_place_filter.mp hx
    rcases List.mem_append.mp hrow with hrow | hrow
    · exact hall _ (List.mem_cons_self ..) row hrow hkeep y hy (isShown_iff.mp hshown)
    · exact hall _ (List.mem_cons_of_mem _ (List.mem_singleton.mpr rfl)) row hrow hkeep y hy (isShown_iff.mp hshown)

theorem length_held : (mergeActivity dateParse (load runs n) (load occurrences m) keep journal).held =
    (((placedOf dateParse runs occurrences keep journal n m).insertionSort Placed.before).filter
      fun y => !isShown dateParse runs occurrences journal n m y).length := by
  have hlength := (List.filter_append_perm (isShown dateParse runs occurrences journal n m)
    ((placedOf dateParse runs occurrences keep journal n m).insertionSort Placed.before)).length_eq
  rw [List.length_append] at hlength
  rw [held_eq, shown_eq, List.length_map]
  omega

/-- Loading more keeps the rows shown in front exactly where it disturbs none of them. What is shown is ordered by place,
each row of a loaded record that the filter keeps and each entry of the window is shown or held, once, and nothing is held
where no list has more. -/
theorem activity_grows_iff (hruns : Served (createdIn journal) ((runs.getD []).filterMap (runRow dateParse)))
    (hoccurrences : Served (createdIn journal) ((occurrences.getD []).filterMap (occurrenceRow dateParse))) {n' m' : Nat}
    (hn : n ≤ n') (hm : m ≤ m') :
    let first := mergeActivity dateParse (load runs n) (load occurrences m) keep journal
    let later := mergeActivity dateParse (load runs n') (load occurrences m') keep journal
    (first.shown <+: later.shown ↔ Undisturbed (createdIn journal) keep (streams dateParse runs occurrences n m n' m')
      (limiting dateParse runs occurrences n m) (placedOf dateParse runs occurrences keep journal n m)) ∧
      (first.shown.Pairwise fun a b => b.spot (createdIn journal) ≤ a.spot (createdIn journal)) ∧
      (∃ heldRows, (first.shown ++ heldRows).Perm ((placedOf dateParse runs occurrences keep journal n m).map Placed.row) ∧
        first.held = heldRows.length) ∧
      (hasMore (load runs n) = false → hasMore (load occurrences m) = false → first.held = 0) := by
  intro first later
  have hsorted := List.pairwise_insertionSort Placed.before (placedOf dateParse runs occurrences keep journal n m)
  have hperm := List.perm_insertionSort Placed.before (placedOf dateParse runs occurrences keep journal n m)
  have hat : ∀ {n m : Nat}, ∀ y ∈ ((placedOf dateParse runs occurrences keep journal n m).insertionSort Placed.before).filter
      (isShown dateParse runs occurrences journal n m), y.at_ = y.row.spot (createdIn journal) := by
    intro n m y hy
    exact at_of_placed ((List.mem_insertionSort _).mp (List.mem_filter.mp hy).1)
  have hheld : first.held = _ := length_held
  have hshown : first.shown = _ := shown_eq
  have hshown' : later.shown = _ := shown_eq
  refine ⟨?_, ?_, ⟨_, ?_, hheld.trans (List.length_map Placed.row).symm⟩, fun hnone hnone' => ?_⟩
  · rw [hshown, hshown', map_row_grows hat hat, (woven_more hn hm).shown_iff isShown_upward (isShown_more hn hm)
      fun x _ hx y _ hy => before_of_held hn hm hx hy]
    exact added_behind_iff hruns hoccurrences hn hm
  · rw [hshown, List.pairwise_map]
    refine (hsorted.filter _).imp_of_mem fun {a b} ha hb hab => ?_
    rw [← hat a ha, ← hat b hb]
    exact le_of_before hab
  · rw [hshown, ← List.map_append]
    exact ((List.filter_append_perm _ _).trans hperm).map Placed.row
  · rw [hheld, List.length_eq_zero_iff, List.filter_eq_nil_iff]
    intro y _
    have hall : isShown dateParse runs occurrences journal n m y = true := by
      rw [isShown_iff, limiting, limitsOf, hnone, hnone']
      exact nofun
    rw [hall]
    exact Bool.false_ne_true

end

namespace Sample

/-- The time that every record of the sample was first recorded at. -/
def dateParse (_ : Units) : Option Int := some 1767225600000

def run (id : String) : Run :=
  { id := wordText id, releaseId := wordText "rel", state := .queued, createdAt := wordText "2026-01-01T00:00:00Z"
    startedAt := none, finishedAt := none, requestedBy := none, trigger := none }

def noOccurrences : Option (List Occurrence) := none

/-- The first of two runs is loaded, or both. -/
def merged (first second : String) (n : Nat) : Merged :=
  mergeActivity dateParse (load (some [run first, run second]) n) (load noOccurrences 0) (fun _ => true) none

theorem served (runs : List Run) : Served (createdIn none) (runs.filterMap (runRow dateParse)) := by
  refine List.pairwise_of_forall_mem_list fun a ha b hb => ⟨?_, nofun⟩
  have htime : ∀ row ∈ runs.filterMap (runRow dateParse), row.first.time = 1767225600000 := by
    intro row hrow
    obtain ⟨run, -, hrun⟩ := List.mem_filterMap.mp hrow
    obtain ⟨_, htime⟩ := time_of_stamp (key_runRow hrun).2
    exact (Option.some.inj htime).symm
  rw [htime a ha, htime b hb]

theorem served_none : Served (createdIn none) ((noOccurrences.getD []).filterMap (occurrenceRow dateParse)) :=
  List.Pairwise.nil

end Sample

theorem activity_grows_iff_sample :
    (Sample.merged "a" "b" 1).shown <+: (Sample.merged "a" "b" 2).shown ∧
      Undisturbed (createdIn none) (fun _ => true)
        (streams Sample.dateParse (some [Sample.run "a", Sample.run "b"]) Sample.noOccurrences 1 0 2 0)
        (limiting Sample.dateParse (some [Sample.run "a", Sample.run "b"]) Sample.noOccurrences 1 0)
        (placedOf Sample.dateParse (some [Sample.run "a", Sample.run "b"]) Sample.noOccurrences (fun _ => true) none 1 0) := by
  have hgrows : (Sample.merged "a" "b" 1).shown <+: (Sample.merged "a" "b" 2).shown := by decide +kernel
  exact ⟨hgrows, (activity_grows_iff (Sample.served _) Sample.served_none (Nat.le_succ 1) (Nat.le_refl 0)).1.mp hgrows⟩

/-- Of two runs of one instant the one that is loaded later stands above the other, where its key is less. -/
theorem same_instant_moves_up :
    Served (createdIn none) ([Sample.run "b", Sample.run "a"].filterMap (runRow Sample.dateParse)) ∧
      ¬ (Sample.merged "b" "a" 1).shown <+: (Sample.merged "b" "a" 2).shown :=
  ⟨Sample.served _, by decide +kernel⟩

end Activity

end Desk
