import Desk.Handover.Checkpoints
import Desk.Lib.JsonRound

/-!
# The joined checkpoints are the ones asked for

The records after a cursor up to the record asked for are the same in every
longer trail, and a batch is what is next of them. Whatever a runtime prints,
what is joined is whole lines of increasing sequences.
-/

namespace Desk

namespace Handover

open Stamping (CheckpointHead)

/-! ## Lines -/

theorem splitAfter_line {document : List UInt8} (h : newline ∉ document) (rest : List UInt8) :
    splitAfter (document ++ newline :: rest) = (document ++ [newline]) :: splitAfter rest := by
  induction document with
  | nil =>
    rw [List.nil_append, splitAfter, if_pos rfl]
    rfl
  | cons c document ih =>
    rw [List.mem_cons, not_or] at h
    rw [List.cons_append, splitAfter, if_neg (Ne.symm h.1), ih h.2]
    rfl

theorem splitAfter_linesOf {records : List ChainedRecord} (h : ∀ r ∈ records, newline ∉ r.checkpoint) :
    splitAfter (linesOf records) = records.map (fun r => r.checkpoint ++ [newline]) ++ [[]] := by
  induction records with
  | nil => rfl
  | cons r rest ih =>
    have hrest := ih fun s hs => h s (List.mem_cons_of_mem _ hs)
    rw [linesOf, List.flatMap_cons, ← linesOf, List.append_assoc, List.singleton_append,
      splitAfter_line (h r List.mem_cons_self), hrest]
    rfl

/-- A line has no newline before its end. -/
theorem newline_not_mem {out line : List UInt8} (h : line ∈ splitAfter out) : newline ∉ line.dropLast := by
  induction out generalizing line with
  | nil =>
    obtain rfl := List.mem_singleton.mp h
    exact List.not_mem_nil
  | cons c rest ih =>
    rw [splitAfter] at h
    split at h
    · obtain rfl | h := List.mem_cons.mp h
      · exact List.not_mem_nil
      · exact ih h
    · rename_i hc
      cases hsplit : splitAfter rest with
      | nil =>
        rw [hsplit] at h
        obtain rfl := List.mem_singleton.mp h
        exact List.not_mem_nil
      | cons first lines =>
        rw [hsplit] at h ih
        obtain rfl | h := List.mem_cons.mp h
        · have hfirst : newline ∉ first.dropLast := ih List.mem_cons_self
          cases first with
          | nil => exact List.not_mem_nil
          | cons d first =>
            rw [List.dropLast_cons_cons, List.mem_cons, not_or]
            exact ⟨Ne.symm hc, hfirst⟩
        · exact ih (List.mem_cons_of_mem _ h)

section
variable {identity : String} {through : Int}

/-- One checkpoint of the identity, after the last one and not past the one asked for. -/
theorem readLines_checkpoint {document : List UInt8} {sequence : Nat} {digest : String} {last : Int}
    (h : readCheckpointLine document = some ⟨identity, sequence, digest⟩) (hlast : last < sequence)
    (hthrough : (sequence : Int) ≤ through) (rest : List (List UInt8)) (received : Nat) (data : List UInt8) :
    readLines identity through ((document ++ [newline]) :: rest) received data last =
      if (sequence : Int) = through then .ok (.reached ⟨data ++ (document ++ [newline]), sequence, false⟩)
      else readLines identity through rest (received + 1) (data ++ (document ++ [newline])) sequence := by
  rw [readLines, if_neg (by simp), if_neg (by simp), List.dropLast_concat, h]
  simp only [ne_eq, not_true_eq_false, if_false, if_neg (Int.not_le.mpr hlast), if_neg (Int.not_lt.mpr hthrough)]
  rfl

/-- The last sequence of the records, or the one before them. -/
def lastOf : Int → List ChainedRecord → Int
  | last, [] => last
  | _, r :: rest => lastOf r.sequence rest

theorem lastOf_append (last : Int) (a b : List ChainedRecord) : lastOf last (a ++ b) = lastOf (lastOf last a) b := by
  induction a generalizing last with
  | nil => rfl
  | cons r a ih => exact ih r.sequence

/-- What a trail has of records after a cursor. -/
structure Readable (identity : String) (through last : Int) (records : List ChainedRecord) : Prop where
  ordered : records.Pairwise fun r s => r.sequence < s.sequence
  printed : ∀ r ∈ records, newline ∉ r.checkpoint ∧
    ∃ digest, readCheckpointLine r.checkpoint = some ⟨identity, r.sequence, digest⟩
  after : ∀ r ∈ records, last < r.sequence
  bounded : ∀ r ∈ records, (r.sequence : Int) ≤ through

theorem Readable.tail {last : Int} {r : ChainedRecord} {rest : List ChainedRecord}
    (h : Readable identity through last (r :: rest)) : Readable identity through r.sequence rest where
  ordered := h.ordered.of_cons
  printed s hs := h.printed s (List.mem_cons_of_mem _ hs)
  after _ hs := Int.ofNat_lt.mpr (List.rel_of_pairwise_cons h.ordered hs)
  bounded s hs := h.bounded s (List.mem_cons_of_mem _ hs)

theorem Readable.sublist {last : Int} {records part : List ChainedRecord} (h : Readable identity through last records)
    (hsub : part.Sublist records) : Readable identity through last part where
  ordered := h.ordered.sublist hsub
  printed r hr := h.printed r (hsub.subset hr)
  after r hr := h.after r (hsub.subset hr)
  bounded r hr := h.bounded r (hsub.subset hr)

theorem Readable.le_lastOf {last : Int} {records : List ChainedRecord} (h : Readable identity through last records) :
    last ≤ lastOf last records ∧ ∀ r ∈ records, (r.sequence : Int) ≤ lastOf last records := by
  induction records generalizing last with
  | nil => exact ⟨Int.le_refl _, nofun⟩
  | cons r rest ih =>
    obtain ⟨hle, hrest⟩ := ih h.tail
    refine ⟨(Int.le_of_lt (h.after r List.mem_cons_self)).trans hle, ?_⟩
    intro s hs
    obtain rfl | hs := List.mem_cons.mp hs
    · exact hle
    · exact hrest s hs

theorem lastOf_mem (last : Int) {records : List ChainedRecord} (h : records ≠ []) :
    ∃ r ∈ records, (r.sequence : Int) = lastOf last records := by
  induction records generalizing last with
  | nil => exact absurd rfl h
  | cons r rest ih =>
    cases rest with
    | nil => exact ⟨r, List.mem_cons_self, rfl⟩
    | cons s rest =>
      obtain ⟨t, ht, hseq⟩ := ih (↑r.sequence) (List.cons_ne_nil s rest)
      exact ⟨t, List.mem_cons_of_mem _ ht, hseq⟩

/-- Lines before the one asked for. -/
theorem readLines_read {last : Int} {records : List ChainedRecord} (h : Readable identity through last records)
    (hne : ∀ r ∈ records, (r.sequence : Int) ≠ through) (rest : List (List UInt8)) (received : Nat) (data : List UInt8) :
    readLines identity through (records.map (fun r => r.checkpoint ++ [newline]) ++ rest) received data last =
      readLines identity through rest (received + records.length) (data ++ linesOf records) (lastOf last records) := by
  induction records generalizing last received data with
  | nil => rw [linesOf, List.flatMap_nil, List.append_nil]; rfl
  | cons r records ih =>
    obtain ⟨-, digest, hread⟩ := h.printed r List.mem_cons_self
    rw [List.map_cons, List.cons_append, readLines_checkpoint hread (h.after r List.mem_cons_self)
      (h.bounded r List.mem_cons_self), if_neg (hne r List.mem_cons_self),
      ih h.tail (fun s hs => hne s (List.mem_cons_of_mem _ hs)), List.length_cons, List.append_assoc,
      Nat.add_assoc, Nat.add_comm 1]
    rfl

/-- Lines up to the one asked for, whatever follows them. -/
theorem readLines_reached {last : Int} {records : List ChainedRecord} (h : Readable identity through last records)
    (hne : records ≠ []) (hlast : lastOf last records = through) (rest : List (List UInt8)) (received : Nat)
    (data : List UInt8) :
    readLines identity through (records.map (fun r => r.checkpoint ++ [newline]) ++ rest) received data last =
      .ok (.reached ⟨data ++ linesOf records, through, false⟩) := by
  induction records generalizing last received data with
  | nil => exact absurd rfl hne
  | cons r records ih =>
    obtain ⟨-, digest, hread⟩ := h.printed r List.mem_cons_self
    rw [List.map_cons, List.cons_append, readLines_checkpoint hread (h.after r List.mem_cons_self)
      (h.bounded r List.mem_cons_self)]
    cases records with
    | nil =>
      have hseq : (r.sequence : Int) = through := hlast
      rw [if_pos hseq, hseq]
      simp [linesOf]
    | cons s records =>
      have hlt : (r.sequence : Int) < s.sequence := h.tail.after s List.mem_cons_self
      have hle : (s.sequence : Int) ≤ through := h.tail.bounded s List.mem_cons_self
      rw [if_neg (by omega), ih h.tail (List.cons_ne_nil s records) hlast, List.append_assoc]
      rfl

end

/-! ## What a trail has after a cursor -/

section
variable {records : List ChainedRecord}

theorem mem_window {r : ChainedRecord} {from_ through : Int} :
    r ∈ window records from_ through ↔ r ∈ records ∧ from_ < r.sequence ∧ (r.sequence : Int) ≤ through := by
  rw [window, List.mem_filter, decide_eq_true_iff]

/-- In the order of a trail, what is after the record asked for comes last. -/
theorem filter_after (ho : records.Pairwise fun r s => r.sequence < s.sequence) {last through : Int} (h : last ≤ through) :
    (records.filter fun r => decide (last < r.sequence)) =
      window records last through ++ records.filter fun r => decide (through < r.sequence) := by
  induction records with
  | nil => rfl
  | cons r rest ih =>
    have hrest := ih ho.of_cons
    unfold window at hrest ⊢
    by_cases hlast : last < r.sequence
    · by_cases hthrough : (r.sequence : Int) ≤ through
      · simp only [List.filter_cons, hlast, hthrough, and_self, decide_true, if_true, Int.not_lt.mpr hthrough,
          decide_false, Bool.false_eq_true, if_false, hrest, List.cons_append]
      · have hnone : (rest.filter fun s => decide (last < s.sequence ∧ (s.sequence : Int) ≤ through)) = [] := by
          rw [List.filter_eq_nil_iff]
          intro s hs hin
          have hlt : r.sequence < s.sequence := List.rel_of_pairwise_cons ho hs
          have hle := (decide_eq_true_iff.mp hin).2
          omega
        rw [hnone, List.nil_append] at hrest
        simp only [List.filter_cons, hlast, hthrough, and_false, decide_true, if_true, Int.not_le.mp hthrough,
          decide_false, Bool.false_eq_true, if_false, hrest, hnone, List.nil_append]
    · have hthrough : ¬ through < r.sequence := fun hlt => hlast (Int.lt_of_le_of_lt h hlt)
      simp only [List.filter_cons, hlast, hthrough, false_and, decide_false, Bool.false_eq_true, if_false, hrest]

/-- What is appended is after the record asked for. -/
theorem window_grow {grown : List ChainedRecord} (ho : grown.Pairwise fun r s => r.sequence < s.sequence)
    (hgrown : records <+: grown) {through : Int} (h : ∃ r ∈ records, (r.sequence : Int) = through) (last : Int) :
    window grown last through = window records last through := by
  obtain ⟨more, rfl⟩ := hgrown
  obtain ⟨r, hr, rfl⟩ := h
  have hmore : window more last r.sequence = [] := by
    rw [window, List.filter_eq_nil_iff]
    intro s hs hin
    have hlt : r.sequence < s.sequence := (List.pairwise_append.mp ho).2.2 r hr s hs
    have hle := (decide_eq_true_iff.mp hin).2
    omega
  have happend : window (records ++ more) last r.sequence = window records last r.sequence ++ window more last r.sequence :=
    List.filter_append ..
  rw [happend, hmore, List.append_nil]

end

section
variable {identity : String} (T : Trail identity) {last through : Int}

theorem readable_window : Readable identity through last (window T.records last through) where
  ordered := T.ordered.sublist List.filter_sublist
  printed r hr := T.printed r (mem_window.mp hr).1
  after _ hr := (mem_window.mp hr).2.1
  bounded _ hr := (mem_window.mp hr).2.2

variable {T}

/-- A window that is cut after some records. -/
theorem window_cut {a b : List ChainedRecord} (h : window T.records last through = a ++ b) (hle : last ≤ through) :
    window T.records (lastOf last a) through = b ∧ window T.records last (lastOf last a) = a ∧
      (∀ r ∈ b, lastOf last a < r.sequence) ∧ lastOf last a ≤ through := by
  have hw : Readable identity through last (a ++ b) := h ▸ readable_window T
  have ha := (hw.sublist (List.sublist_append_left a b)).le_lastOf
  have hb : ∀ r ∈ b, lastOf last a < r.sequence := by
    intro r hr
    cases hempty : a with
    | nil => exact hw.after r (List.mem_append_right _ hr)
    | cons s a' =>
      rw [← hempty]
      obtain ⟨t, ht, hseq⟩ := lastOf_mem last (List.ne_nil_of_mem (hempty ▸ List.mem_cons_self : s ∈ a))
      rw [← hseq]
      exact Int.ofNat_lt.mpr ((List.pairwise_append.mp hw.ordered).2.2 t ht r hr)
  have hbound : lastOf last a ≤ through := by
    cases hempty : a with
    | nil => exact hle
    | cons s a' =>
      rw [← hempty]
      obtain ⟨t, ht, hseq⟩ := lastOf_mem last (List.ne_nil_of_mem (hempty ▸ List.mem_cons_self : s ∈ a))
      exact hseq ▸ hw.bounded t (List.mem_append_left _ ht)
  have hupper : window T.records (lastOf last a) through =
      (window T.records last through).filter fun r => decide (lastOf last a < r.sequence) := by
    unfold window
    rw [List.filter_filter]
    apply List.filter_congr
    intro r _
    rw [Bool.eq_iff_iff, Bool.and_eq_true]
    simp only [decide_eq_true_eq]
    have := ha.1
    omega
  have hlower : window T.records last (lastOf last a) =
      (window T.records last through).filter fun r => decide ((r.sequence : Int) ≤ lastOf last a) := by
    unfold window
    rw [List.filter_filter]
    apply List.filter_congr
    intro r _
    rw [Bool.eq_iff_iff, Bool.and_eq_true]
    simp only [decide_eq_true_eq]
    omega
  refine ⟨?_, ?_, hb, hbound⟩
  · rw [hupper, h, List.filter_append, List.filter_eq_nil_iff.mpr, List.nil_append, List.filter_eq_self.mpr]
    · exact fun r hr => decide_eq_true (hb r hr)
    · exact fun r hr hin => absurd (decide_eq_true_iff.mp hin) (Int.not_lt.mpr (ha.2 r hr))
  · rw [hlower, h, List.filter_append, List.filter_eq_self.mpr, List.filter_eq_nil_iff.mpr, List.append_nil]
    · exact fun r hr hin => absurd (decide_eq_true_iff.mp hin) (Int.not_le.mpr (hb r hr))
    · exact fun r hr => decide_eq_true (ha.2 r hr)

/-- The window up to a record of the trail ends with it. -/
theorem lastOf_window (h : ∃ r ∈ T.records, (r.sequence : Int) = through) (hlast : last < through) :
    window T.records last through ≠ [] ∧ lastOf last (window T.records last through) = through := by
  obtain ⟨r, hr, hseq⟩ := h
  have hmem : r ∈ window T.records last through := mem_window.mpr ⟨hr, by omega, by omega⟩
  have hne := List.ne_nil_of_mem hmem
  obtain ⟨t, ht, hlastOf⟩ := lastOf_mem last hne
  refine ⟨hne, Int.le_antisymm ?_ ?_⟩
  · rw [← hlastOf]
    exact (mem_window.mp ht).2.2
  · rw [← hseq]
    exact hseq ▸ (readable_window T).le_lastOf.2 r hmem

end

/-! ## The batches -/

theorem linesOf_append (a b : List ChainedRecord) : linesOf (a ++ b) = linesOf a ++ linesOf b := List.flatMap_append

/-- What is joined when `left` batches may still be asked for. -/
def joined (left : Nat) (data : List UInt8) (last through : Int) (asked : List ChainedRecord) : Checkpoints :=
  if asked.length ≤ handoverBatch * left then ⟨data ++ linesOf asked, through, false⟩
  else
    let first := asked.take (handoverBatch * left)
    ⟨data ++ linesOf first, lastOf last first, true⟩

/-- One batch less to ask for. -/
theorem joined_succ {left : Nat} {data : List UInt8} {last through : Int} {asked : List ChainedRecord}
    (h : handoverBatch < asked.length) :
    joined left (data ++ linesOf (asked.take handoverBatch)) (lastOf last (asked.take handoverBatch)) through
      (asked.drop handoverBatch) = joined (left + 1) data last through asked := by
  have hcut := List.take_append_drop handoverBatch asked
  have hlength : (asked.drop handoverBatch).length ≤ handoverBatch * left ↔ asked.length ≤ handoverBatch * (left + 1) := by
    rw [List.length_drop, Nat.mul_succ]
    omega
  have htake : asked.take (handoverBatch * (left + 1)) =
      asked.take handoverBatch ++ (asked.drop handoverBatch).take (handoverBatch * left) := by
    rw [Nat.mul_succ, Nat.add_comm, List.take_add]
  unfold joined
  by_cases hle : asked.length ≤ handoverBatch * (left + 1)
  · rw [if_pos hle, if_pos (hlength.mpr hle), List.append_assoc, ← linesOf_append, hcut]
  · rw [if_neg hle, if_neg fun h => hle (hlength.mp h), htake]
    simp only [linesOf_append, lastOf_append, List.append_assoc]

theorem readBatches_trail {identity : String} {trails : Nat → Trail identity} {through : Int}
    (hgrow : ∀ i, (trails i).records <+: (trails (i + 1)).records) {left next : Nat} {data : List UInt8} {last : Int}
    (hthrough : ∃ r ∈ (trails next).records, (r.sequence : Int) = through) (hlast : last < through) :
    readBatches (trailRuntime trails) identity through left next data last =
      .ok (joined left data last through (window (trails next).records last through)) := by
  induction left generalizing next data last with
  | zero =>
    have hne := List.length_pos_iff.mpr (lastOf_window hthrough hlast).1
    rw [readBatches, joined, if_neg (by omega)]
    simp [linesOf, lastOf]
    rfl
  | succ left ih =>
    obtain ⟨hne, hend⟩ := lastOf_window hthrough hlast
    have hreadable : Readable identity through last (window (trails next).records last through) :=
      readable_window (trails next)
    have hbatch := filter_after (trails next).ordered (Int.le_of_lt hlast)
    have hprinted : ∀ {part : List ChainedRecord}, part.Sublist (trails next).records →
        ∀ r ∈ part, newline ∉ r.checkpoint := fun hsub r hr => ((trails next).printed r (hsub.subset hr)).1
    have hanswer : trailRuntime trails next ⟨last, handoverBatch⟩ = .ok (linesOf
        (((trails next).records.filter fun r => decide (last < r.sequence)).take handoverBatch)) := rfl
    rw [readBatches, hanswer, hbatch]
    have hsub : ((window (trails next).records last through ++
        (trails next).records.filter fun r => decide (through < r.sequence)).take handoverBatch).Sublist
        (trails next).records := by
      rw [← hbatch]
      exact (List.take_sublist _ _).trans List.filter_sublist
    show (readLines identity through (splitAfter (linesOf _)) 0 data last >>= _) = _
    rw [splitAfter_linesOf (hprinted hsub)]
    generalize hw : window (trails next).records last through = asked at *
    by_cases hlength : asked.length ≤ handoverBatch
    · rw [List.take_append, List.take_of_length_le hlength, List.map_append, List.append_assoc,
        readLines_reached hreadable hne hend, joined, if_pos (by rw [Nat.mul_succ]; omega)]
      rfl
    · rw [List.take_append_of_le_length (Nat.le_of_not_le hlength)]
      have hcut : window (trails next).records last through = asked.take handoverBatch ++ asked.drop handoverBatch := by
        rw [List.take_append_drop, hw]
      obtain ⟨hrest, -, hafter, -⟩ := window_cut hcut (Int.le_of_lt hlast)
      have hpart := hreadable.sublist (List.take_sublist handoverBatch asked)
      have hmore : asked.drop handoverBatch ≠ [] := by
        rw [Ne, List.drop_eq_nil_iff]
        exact hlength
      obtain ⟨s, hs⟩ := List.exists_mem_of_ne_nil _ hmore
      have hbefore : lastOf last (asked.take handoverBatch) < through :=
        Int.lt_of_lt_of_le (hafter s hs) (hreadable.bounded s (List.mem_of_mem_drop hs))
      rw [readLines_read hpart fun r hr => by have := hpart.le_lastOf.2 r hr; omega]
      have hcount : (asked.take handoverBatch).length = handoverBatch := by
        rw [List.length_take]
        omega
      have hgrown : ∃ r ∈ (trails (next + 1)).records, (r.sequence : Int) = through := by
        obtain ⟨r, hr, hseq⟩ := hthrough
        exact ⟨r, (hgrow next).subset hr, hseq⟩
      have hnext := @ih (next + 1) (data ++ linesOf (asked.take handoverBatch)) _ hgrown hbefore
      rw [window_grow (trails (next + 1)).ordered (hgrow next) hthrough, hrest,
        joined_succ (Nat.lt_of_not_le hlength)] at hnext
      rw [← hnext, hcount, Nat.zero_add]
      rfl

/-! ## Any output of a runtime -/

/-- Whole lines of checkpoints of the identity, of sequences that increase. -/
def WholeLines (identity : String) (from_ through : Int) (data : List UInt8) : Prop :=
  ∃ lines : List (List UInt8 × CheckpointHead),
    data = (lines.flatMap fun l => l.1 ++ [newline]) ∧
    (∀ l ∈ lines, newline ∉ l.1 ∧ readCheckpointLine l.1 = some l.2 ∧ l.2.identity = identity ∧
      from_ < l.2.sequence ∧ (l.2.sequence : Int) ≤ through) ∧
    lines.Pairwise fun l m => l.2.sequence < m.2.sequence

/-- What is read so far: lines up to the last one. -/
structure ReadTo (identity : String) (from_ through : Int) (data : List UInt8) (last : Int) : Prop where
  lines : WholeLines identity from_ last data
  from_le : from_ ≤ last
  bounded : data ≠ [] → last ≤ through

theorem WholeLines.nil (identity : String) (from_ through : Int) : WholeLines identity from_ through [] :=
  ⟨[], rfl, nofun, List.Pairwise.nil⟩

theorem ReadTo.whole {identity : String} {from_ through : Int} {data : List UInt8} {last : Int}
    (h : ReadTo identity from_ through data last) : WholeLines identity from_ through data := by
  obtain ⟨lines, rfl, hall, hordered⟩ := h.lines
  refine ⟨lines, rfl, ?_, hordered⟩
  intro l hl
  obtain ⟨hline, hread, hid, hfrom, hlast⟩ := hall l hl
  have hne : (lines.flatMap fun l => l.1 ++ [newline]) ≠ [] := by
    intro hnil
    exact absurd (List.flatMap_eq_nil_iff.mp hnil l hl) (by simp)
  exact ⟨hline, hread, hid, hfrom, hlast.trans (h.bounded hne)⟩

theorem ReadTo.snoc {identity : String} {from_ through : Int} {data : List UInt8} {last : Int}
    (h : ReadTo identity from_ through data last) {document : List UInt8} {checkpoint : CheckpointHead}
    (hline : newline ∉ document) (hread : readCheckpointLine document = some checkpoint)
    (hid : checkpoint.identity = identity) (hlast : last < checkpoint.sequence)
    (hthrough : (checkpoint.sequence : Int) ≤ through) :
    ReadTo identity from_ through (data ++ (document ++ [newline])) checkpoint.sequence := by
  obtain ⟨lines, rfl, hall, hordered⟩ := h.lines
  have hfrom := h.from_le
  refine ⟨⟨lines ++ [(document, checkpoint)], by simp, ?_, ?_⟩, by omega, fun _ => hthrough⟩
  · intro l hl
    obtain hl | hl := List.mem_append.mp hl
    · obtain ⟨hline, hread, hid, hfrom, hle⟩ := hall l hl
      exact ⟨hline, hread, hid, hfrom, by omega⟩
    · obtain rfl := List.mem_singleton.mp hl
      exact ⟨hline, hread, hid, by show from_ < (checkpoint.sequence : Int); omega, Int.le_refl _⟩
  · rw [List.pairwise_append]
    refine ⟨hordered, List.pairwise_singleton _ _, ?_⟩
    intro l hl m hm
    obtain rfl := List.mem_singleton.mp hm
    have hle := (hall l hl).2.2.2.2
    show l.2.sequence < checkpoint.sequence
    omega

def Batch.Whole (identity : String) (from_ through : Int) : Batch → Prop
  | .read _ data last => ReadTo identity from_ through data last
  | .reached checkpoints => WholeLines identity from_ through checkpoints.data

theorem readLines_whole {identity : String} {from_ through : Int} {lines : List (List UInt8)} {received : Nat}
    {data : List UInt8} {last : Int} {batch : Batch} (hlines : ∀ line ∈ lines, newline ∉ line.dropLast)
    (hdata : ReadTo identity from_ through data last)
    (h : readLines identity through lines received data last = .ok batch) : batch.Whole identity from_ through := by
  induction lines generalizing received data last with
  | nil =>
    obtain rfl := Except.ok.inj h
    exact hdata
  | cons line rest ih =>
    have hrest : ∀ l ∈ rest, newline ∉ l.dropLast := fun l hl => hlines l (List.mem_cons_of_mem _ hl)
    rw [readLines] at h
    split at h
    · exact ih hrest hdata h
    · split at h
      · cases h
      · rename_i hne hend
        have hline : line = line.dropLast ++ [newline] := by
          rw [not_not] at hend
          exact (List.dropLast_append_getLast? newline hend).symm
        split at h
        · cases h
        · rename_i checkpoint hread
          split at h
          · cases h
          · rename_i hid
            split at h
            · cases h
            · rename_i hlast
              split at h
              · cases h
              · rename_i hthrough
                have hsnoc := hdata.snoc (hlines line List.mem_cons_self) hread (not_not.mp hid)
                  (Int.not_le.mp hlast) (Int.not_lt.mp hthrough)
                rw [← hline] at hsnoc
                split at h
                · obtain rfl := Except.ok.inj h
                  exact hsnoc.whole
                · exact ih hrest hsnoc h

theorem readBatches_whole {runtime : Runtime} {identity : String} {from_ through : Int} {left next : Nat}
    {data : List UInt8} {last : Int} {c : Checkpoints} (hdata : ReadTo identity from_ through data last)
    (h : readBatches runtime identity through left next data last = .ok c) : WholeLines identity from_ through c.data := by
  induction left generalizing next data last with
  | zero =>
    obtain rfl := Except.ok.inj h
    exact hdata.whole
  | succ left ih =>
    rw [readBatches] at h
    cases hout : runtime next ⟨last, handoverBatch⟩ with
    | error why =>
      rw [hout] at h
      cases h
    | ok out =>
      rw [hout] at h
      cases hbatch : readLines identity through (splitAfter out) 0 data last with
      | error why =>
        replace h : (readLines identity through (splitAfter out) 0 data last >>= _) = _ := h
        rw [hbatch] at h
        cases h
      | ok batch =>
        replace h : (readLines identity through (splitAfter out) 0 data last >>= _) = _ := h
        have hwhole := readLines_whole (fun line => newline_not_mem) hdata hbatch
        rw [hbatch] at h
        cases batch with
        | reached checkpoints =>
          obtain rfl := Except.ok.inj h
          exact hwhole
        | read received data last =>
          replace h : (if received < handoverBatch then throw checkpointsChanged
            else readBatches runtime identity through left (next + 1) data last) = .ok c := h
          split at h
          · cases h
          · exact ih hwhole h

/-! ## The checkpoints that were asked for -/

/-- What is joined is what the trail has up to the last line of it. -/
theorem joined_window {identity : String} {T : Trail identity} {from_ through : Int}
    (hthrough : ∃ r ∈ T.records, (r.sequence : Int) = through) (hfrom : from_ < through) {c : Checkpoints}
    (hc : c = joined handoverBatches [] from_ through (window T.records from_ through)) :
    c.data = linesOf (window T.records from_ c.through) ∧ from_ < c.through ∧
      (window T.records from_ c.through).length ≤ handoverBatch * handoverBatches ∧
      ∃ r ∈ T.records, (r.sequence : Int) = c.through := by
  unfold joined at hc
  generalize hw : window T.records from_ through = asked at hc
  by_cases hle : asked.length ≤ handoverBatch * handoverBatches
  · rw [if_pos hle] at hc
    subst hc
    rw [hw]
    exact ⟨rfl, hfrom, hle, hthrough⟩
  · rw [if_neg hle] at hc
    have hcut : window T.records from_ through =
        asked.take (handoverBatch * handoverBatches) ++ asked.drop (handoverBatch * handoverBatches) := by
      rw [List.take_append_drop, hw]
    obtain ⟨-, hwindow, -, -⟩ := window_cut hcut (Int.le_of_lt hfrom)
    have hne : asked.take (handoverBatch * handoverBatches) ≠ [] := by
      intro hnil
      have hzero := congrArg List.length hnil
      rw [List.length_take, Nat.min_eq_left (Nat.le_of_not_le hle)] at hzero
      exact absurd hzero (by decide)
    obtain ⟨r, hr, hseq⟩ := lastOf_mem from_ hne
    obtain ⟨hmem, hafter, -⟩ := mem_window.mp (hw ▸ List.mem_of_mem_take hr)
    have hlast : from_ < lastOf from_ (asked.take (handoverBatch * handoverBatches)) := by
      rw [← hseq]
      exact hafter
    subst hc
    rw [hwindow]
    exact ⟨rfl, hlast, List.length_take_le _ _, r, hmem, hseq⟩

def recordIdentity : String := String.ofList (List.replicate 32 'a')

def recordDigest : String := String.ofList ("sha256:".toList ++ List.replicate 64 'b')

/-- A checkpoint as the runtime prints it. -/
@[irreducible] def recordText : List Char :=
  "\x7b\"checkpointVersion\":\"1\",\"trail\":\"".toList ++ List.replicate 32 'a' ++
    "\",\"sequence\":7,\"recordDigest\":\"sha256:".toList ++ List.replicate 64 'b' ++ "\"\x7d".toList

def recordMembers : List (String × List Char) :=
  [("checkpointVersion", "\"1\"".toList), ("trail", '"' :: (List.replicate 32 'a' ++ ['"'])), ("sequence", ['7']),
    ("recordDigest", '"' :: ("sha256:".toList ++ List.replicate 64 'b' ++ ['"']))]

theorem read_recordText : Stamping.readCheckpointLine recordText = some ⟨recordIdentity, 7, recordDigest⟩ := by
  have hmembers : Stamping.exactMembers recordText = some recordMembers := by decide +kernel
  have hversion : Stamping.sidecarString (Stamping.memberText recordMembers "checkpointVersion") = some "1" := by
    decide +kernel
  have htrail : Stamping.sidecarString (Stamping.memberText recordMembers "trail") = some recordIdentity := by
    decide +kernel
  have hsequence : Stamping.sidecarInteger (Stamping.memberText recordMembers "sequence") = some 7 := by
    have htext : Stamping.memberText recordMembers "sequence" = ['7'] := by decide +kernel
    have hvalue : (String.ofList ['7']).toNat? = some 7 := Nat.toNat?_repr 7
    rw [htext, Stamping.sidecarInteger, if_neg (by decide), hvalue]
    rfl
  have hdigest : Stamping.sidecarString (Stamping.memberText recordMembers "recordDigest") = some recordDigest := by
    decide +kernel
  have hidentity : Stamping.keyIDForm recordIdentity = true := by decide +kernel
  have hform : Stamping.recordForm recordDigest = true := by decide +kernel
  have hlength : recordMembers.length = 4 := rfl
  rw [Stamping.readCheckpointLine, if_neg (by decide +kernel), hmembers]
  simp only [Option.bind_eq_bind, Option.bind_some, hversion, htrail, hsequence, hdigest, hlength,
    hidentity, hform, and_self, if_true]

theorem readCheckpointLine_bytes {text : List Char} {c : CheckpointHead} (h : Stamping.readCheckpointLine text = some c) :
    readCheckpointLine (bytesOf (String.ofList text)) = some c := by
  rw [readCheckpointLine, Json.charsOf_bytesOf, Option.bind_some, String.toList_ofList, h]

def recordPrinted : ChainedRecord := ⟨7, bytesOf (String.ofList recordText)⟩

def recordTrail : Trail recordIdentity where
  records := [recordPrinted]
  ordered := List.pairwise_singleton _ _
  printed r hr := by
    obtain rfl := List.mem_singleton.mp hr
    have hread : readCheckpointLine recordPrinted.checkpoint = some ⟨recordIdentity, 7, recordDigest⟩ := by
      rw [recordPrinted]
      exact readCheckpointLine_bytes read_recordText
    exact ⟨by decide +kernel, recordDigest, hread⟩

end Handover

end Desk
