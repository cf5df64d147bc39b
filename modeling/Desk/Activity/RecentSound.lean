import Desk.Activity.RecentJournal

/-!
# The window of recent activity has no gaps

Whatever is read, in whatever order and with whatever failures, the entries
held are a run of the journal (`Window.held`), and the two cursors stand at its
ends.
-/

namespace Desk

namespace RecentJournal

variable {α : Type}

/-! ## A page that is read -/

theorem safe_eq_some {n m : Nat} (h : safe n = some m) : m = n := by
  rw [safe] at h
  split at h
  · exact (Option.some.inj h).symm
  · cases h

theorem readItems_serve {direction : Direction} {cursor previous last : Nat} {items l : List (Entry α)}
    (h : readItems direction cursor previous (items.map serve) = some (l, last)) : l = items := by
  induction items generalizing previous l last with
  | nil =>
    cases h
    rfl
  | cons e items ih =>
    rw [List.map_cons, readItems] at h
    obtain ⟨n, hn, h⟩ := Option.bind_eq_some_iff.mp h
    split at h
    · cases h
    · obtain ⟨⟨rest, last'⟩, hrest, heq⟩ := Option.bind_eq_some_iff.mp h
      cases heq
      rw [ih hrest, safe_eq_some hn]
      rfl

/-- What a page that is read says of the journal. -/
structure Read (j : Journal α) (direction : Direction) (cursor : Nat) (page : JournalPage α)
    (older items newer : List (Entry α)) (next : Nat) : Prop where
  entries : j.entries = older ++ items ++ newer
  holds : Holds direction cursor older items newer
  next_eq : page.next = some next
  more_eq : page.more = some (!(if direction = .after then newer else older).isEmpty)
  before_eq : direction ≠ .after → ∀ e, items.head? = some e → page.before = some e.sequence
  last : ∀ e, items.getLast? = some e → next = e.sequence
  none_read : items = [] → next ≤ j.head ∧ (direction = .after → cursor ≤ next)

theorem Answers.read {j : Journal α} {direction : Direction} {cursor : Nat} {page : JournalPage α} {l : List (Entry α)}
    (h : Answers j direction cursor page) (hread : readRecentPage page direction cursor = some l) :
    ∃ older newer next, Read j direction cursor page older l newer next := by
  obtain ⟨older, items, newer, hentries, hholds, -, hitems, hmore, hbefore, hnext, hnone⟩ := h
  rw [readRecentPage, hitems, Option.bind_eq_bind, Option.bind_some] at hread
  obtain ⟨next, hpage, hread⟩ := Option.bind_eq_some_iff.mp hread
  obtain ⟨more, -, hread⟩ := Option.bind_eq_some_iff.mp hread
  split at hread
  · cases hread
  · rename_i hshape
    obtain ⟨⟨entries, previous⟩, hloop, hread⟩ := Option.bind_eq_some_iff.mp hread
    obtain rfl : entries = items := readItems_serve hloop
    dsimp only at hread
    split at hread
    · cases hread
    · cases hread
      refine ⟨older, newer, next, hentries, hholds, hpage, hmore, fun hne e he => ?_, fun e he => ?_, fun hnil => ?_⟩
      · have hsome : page.before ≠ none := fun hnone => hshape (.inr ⟨hne, hnone⟩)
        obtain ⟨n, hn⟩ := Option.ne_none_iff_exists'.mp hsome
        rw [hn, safe_eq_some ((hbefore hne e he).symm.trans hn)]
      · exact safe_eq_some ((hnext e he).symm.trans hpage)
      · obtain ⟨n, hn, hle, hcursor⟩ := hnone hnil
        rw [hpage] at hn
        cases hn
        exact ⟨hle, hcursor⟩

/-! ## Merging -/

namespace Reader

theorem setEntry_new {l : List (Entry α)} {e : Entry α} (h : e.sequence ∉ l.map Entry.sequence) :
    setEntry l e = l ++ [e] := by
  have hany : (l.any fun x => x.sequence == e.sequence) = false := by
    rw [List.any_eq_false]
    intro x hx hxe
    exact h (beq_iff_eq.mp hxe ▸ List.mem_map_of_mem hx)
  rw [setEntry, hany]
  rfl

theorem foldl_setEntry {l l' : List (Entry α)} (h : ((l ++ l').map Entry.sequence).Nodup) :
    l'.foldl setEntry l = l ++ l' := by
  induction l' generalizing l with
  | nil => rw [List.foldl_nil, List.append_nil]
  | cons e l' ih =>
    have hnew : e.sequence ∉ l.map Entry.sequence := by
      rw [List.map_append, List.nodup_append, List.map_cons] at h
      exact fun hmem => h.2.2 _ hmem _ List.mem_cons_self rfl
    rw [List.foldl_cons, setEntry_new hnew, ih (by rwa [List.append_assoc]), List.append_assoc]
    rfl

/-- Entries of different sequences are put in order. -/
theorem merged_eq {l m : List (Entry α)} (h : (l.map Entry.sequence).Pairwise (· < ·)) (hp : m.Perm l) : merged m = l := by
  have hnodup : (m.map Entry.sequence).Nodup := (hp.map _).nodup_iff.mpr (h.imp Nat.ne_of_lt)
  rw [merged, foldl_setEntry (by rwa [List.nil_append]), List.nil_append]
  have hle : l.Pairwise fun a b => a.sequence ≤ b.sequence := (List.pairwise_map.mp h).imp Nat.le_of_lt
  have hsorted : (m.mergeSort fun a b => decide (a.sequence ≤ b.sequence)).Pairwise fun a b => a.sequence ≤ b.sequence := by
    refine (List.pairwise_mergeSort (fun a b c hab hbc => ?_) (fun a b => ?_) m).imp fun hab => of_decide_eq_true hab
    · exact decide_eq_true (Nat.le_trans (of_decide_eq_true hab) (of_decide_eq_true hbc))
    · rw [← Bool.decide_or, decide_eq_true_eq]
      exact Nat.le_total _ _
  have hinj : ∀ a b : Entry α, a ∈ m → b ∈ m → a.sequence = b.sequence → a = b := fun a b ha hb =>
    List.inj_on_of_nodup_map hnodup ha hb
  refine List.Perm.eq_of_pairwise (fun a b ha hb hab hba => ?_) hsorted hle ((List.mergeSort_perm m _).trans hp)
  exact hinj a b ((List.mergeSort_perm m _).mem_iff.mp ha) (hp.mem_iff.mpr hb) (Nat.le_antisymm hab hba)

end Reader

/-! ## The invariant -/

/-- The entries held are a run of the journal, and the cursors stand at its ends. -/
structure Held (j : Journal α) (r : Reader α) (older newer : List (Entry α)) : Prop where
  entries : j.entries = older ++ r.entries ++ newer
  le_next : ∀ e ∈ older ++ r.entries, e.sequence ≤ r.next
  next_lt : ∀ e ∈ newer, r.next < e.sequence
  next_le : r.next ≤ j.head
  more : r.more = true ↔ older ≠ []
  start : r.entries = [] → older = []
  before : r.more = true → ∀ e, r.entries.head? = some e → r.before = e.sequence

structure Window (keep : Nat) (w : World α) : Prop where
  valid : w.journal.Valid
  bound : w.reader.entries.length ≤ keep
  fresh : w.reader.initialized = false → w.reader.entries = [] ∧ w.reader.more = false ∧ w.reader.timer = false ∧
    w.reader.failed = .tail ∧ (w.reader.busy = none ∨ w.reader.busy = some .tail)
  begun : w.reader.initialized = true → w.reader.busy ≠ some .tail ∧ (w.reader.reason.isSome → w.reader.failed ≠ .tail)
  older : w.reader.busy = some .before → w.reader.more = true
  held : w.reader.initialized = true → ∃ older newer, Held w.journal w.reader older newer
  quiet : w.reader.busy.isSome → w.reader.reason = none

theorem Journal.Valid.pairwise {j : Journal α} (h : j.Valid) : j.entries.Pairwise fun a b => a.sequence < b.sequence :=
  List.pairwise_map.mp h.sorted

/-- The last of entries in order is the latest. -/
theorem le_last {l : List (Entry α)} (h : l.Pairwise fun a b => a.sequence < b.sequence) {last : Entry α}
    (hlast : l.getLast? = some last) : ∀ e ∈ l, e.sequence ≤ last.sequence := by
  obtain ⟨init, rfl⟩ := List.getLast?_eq_some_iff.mp hlast
  intro e he
  rcases List.mem_append.mp he with he | he
  · exact Nat.le_of_lt ((List.pairwise_append.mp h).2.2 e he last (List.mem_singleton.mpr rfl))
  · rw [List.mem_singleton.mp he]

/-- A list is split at a bound in one way. -/
theorem split_unique {p : Entry α → Bool} {a b a' b' : List (Entry α)} (h : a ++ b = a' ++ b') (ha : ∀ e ∈ a, p e = true)
    (hb : ∀ e ∈ b, p e = false) (ha' : ∀ e ∈ a', p e = true) (hb' : ∀ e ∈ b', p e = false) : a = a' ∧ b = b' := by
  have htake : ∀ {x y : List (Entry α)}, (∀ e ∈ x, p e = true) → (∀ e ∈ y, p e = false) → (x ++ y).takeWhile p = x := by
    intro x y hx hy
    rw [List.takeWhile_append_of_pos hx]
    cases y with
    | nil => exact List.append_nil x
    | cons e y => rw [List.takeWhile_cons_of_neg (by rw [hy e List.mem_cons_self]; exact Bool.false_ne_true), List.append_nil]
  have hsame : a = a' := (htake ha hb).symm.trans ((congrArg _ h).trans (htake ha' hb'))
  subst hsame
  exact ⟨rfl, List.append_cancel_left h⟩

/-! ## The bound -/

theorem Held.trim {keep : Nat} (hkeep : 0 < keep) {j : Journal α} {r : Reader α} {older newer : List (Entry α)}
    (h : Held j r older newer) : (∃ older', Held j (r.trim keep) older' newer) ∧ (r.trim keep).entries.length ≤ keep := by
  unfold Reader.trim
  split
  · rename_i hlong
    have hnewest : Reader.newest keep r.entries = r.entries.drop (r.entries.length - keep) := if_neg (Nat.ne_of_gt hkeep)
    have hsplit := List.take_append_drop (r.entries.length - keep) r.entries
    have hlength : (r.entries.drop (r.entries.length - keep)).length = keep := by
      rw [List.length_drop]
      omega
    have hdropped : r.entries.take (r.entries.length - keep) ≠ [] := by
      intro hnil
      have := congrArg List.length hnil
      rw [List.length_take, List.length_nil] at this
      omega
    obtain ⟨first, rest, hfirst⟩ : ∃ first rest, r.entries.drop (r.entries.length - keep) = first :: rest := by
      refine List.exists_cons_of_ne_nil fun hnil => ?_
      rw [hnil, List.length_nil] at hlength
      omega
    have hall : older ++ r.entries.take (r.entries.length - keep) ++ r.entries.drop (r.entries.length - keep) =
        older ++ r.entries := by
      rw [List.append_assoc, hsplit]
    rw [hnewest]
    refine ⟨⟨older ++ r.entries.take (r.entries.length - keep), ?_, ?_, h.next_lt, h.next_le, ?_, ?_, ?_⟩, Nat.le_of_eq hlength⟩
    · rw [hall]
      exact h.entries
    · rw [hall]
      exact h.le_next
    · exact iff_of_true rfl fun hnil => hdropped (List.append_eq_nil_iff.mp hnil).2
    · intro hnil
      rw [hfirst] at hnil
      cases hnil
    · intro _ e he
      dsimp only at he ⊢
      rw [he]
      rfl
  · rename_i hshort
    exact ⟨⟨older, h⟩, Nat.le_of_not_lt hshort⟩

/-! ## What a page adds -/

theorem Held.initialized {j : Journal α} {r : Reader α} {older newer : List (Entry α)} (h : Held j r older newer) (b : Bool) :
    Held j { r with initialized := b } older newer :=
  ⟨h.entries, h.le_next, h.next_lt, h.next_le, h.more, h.start, h.before⟩

/-- The reader with a page's entries, before the bound. -/
theorem received_of_held {keep : Nat} (hkeep : 0 < keep) {j : Journal α} {direction : Direction} {page : JournalPage α}
    {items : List (Entry α)} {r : Reader α} (older : List (Entry α)) {newer : List (Entry α)}
    (h : Held j { r with
      entries := Reader.merged (r.entries ++ items)
      began := some page.journalBegan
      next := if direction = .before then r.next else page.next.getD 0
      before := if direction = .after then r.before else page.before.getD 0
      more := if direction = .after then r.more else page.more.getD false } older newer) :
    (∃ older', Held j (r.received keep direction page items) older' newer) ∧
      (r.received keep direction page items).entries.length ≤ keep := by
  obtain ⟨⟨older', hheld⟩, hbound⟩ := h.trim hkeep
  cases direction <;> exact ⟨⟨older', hheld.initialized true⟩, hbound⟩

variable {j : Journal α} {page : JournalPage α} {cursor next : Nat} {r : Reader α} {older items newer : List (Entry α)}

theorem pairwise_of_entries (hv : j.Valid) {a b c : List (Entry α)} (h : j.entries = a ++ b ++ c) :
    b.Pairwise (fun x y => x.sequence < y.sequence) ∧ (∀ x ∈ a, ∀ y ∈ b, x.sequence < y.sequence) ∧
      (∀ x ∈ a ++ b, ∀ y ∈ c, x.sequence < y.sequence) ∧ (a ++ b).Pairwise (fun x y => x.sequence < y.sequence) := by
  have hsorted := hv.pairwise
  rw [h] at hsorted
  obtain ⟨hab, -, hc⟩ := List.pairwise_append.mp hsorted
  exact ⟨(List.pairwise_append.mp hab).2.1, (List.pairwise_append.mp hab).2.2, hc, hab⟩

/-- The next cursor after a page towards newer entries. -/
theorem Read.le_next (hv : j.Valid) {direction : Direction} {before : List (Entry α)}
    (h : Read j direction cursor page older items newer next) (hbefore : j.entries = before ++ items ++ newer)
    (hnone : items = [] → ∀ e ∈ before, e.sequence ≤ next) : (∀ e ∈ before ++ items, e.sequence ≤ next) ∧ next ≤ j.head := by
  cases hlast : items.getLast? with
  | none =>
    have hnil := List.getLast?_eq_none_iff.mp hlast
    rw [hnil, List.append_nil]
    exact ⟨hnone hnil, (h.none_read hnil).1⟩
  | some last =>
    have hlast' : (before ++ items).getLast? = some last := by
      rw [List.getLast?_append, hlast]
      rfl
    have hmem : last ∈ j.entries := by
      rw [hbefore]
      exact List.mem_append_left _ (List.mem_of_getLast? hlast')
    rw [h.last last hlast]
    exact ⟨le_last (pairwise_of_entries hv hbefore).2.2.2 hlast', hv.le_head last hmem⟩

theorem Read.held_tail (hv : j.Valid) {keep : Nat} (hkeep : 0 < keep) (hr : r.entries = [])
    (h : Read j .tail cursor page older items newer next) :
    (∃ older', Held j (r.received keep .tail page items) older' newer) ∧
      (r.received keep .tail page items).entries.length ≤ keep := by
  obtain ⟨rfl, hstart⟩ := h.holds
  have hitems : Reader.merged (r.entries ++ items) = items := by
    rw [hr, List.nil_append]
    exact Reader.merged_eq (List.pairwise_map.mpr (pairwise_of_entries hv h.entries).1) (List.Perm.refl _)
  obtain ⟨hle, hhead⟩ := h.le_next hv h.entries fun hnil => by
    rw [hstart hnil]
    exact nofun
  have hmore : page.more.getD false = !older.isEmpty := by
    rw [h.more_eq]
    rfl
  refine received_of_held hkeep older ⟨?_, ?_, nofun, ?_, ?_, ?_, fun _ e he => ?_⟩
  · dsimp only
    rw [hitems]
    exact h.entries
  · dsimp only
    rw [hitems, h.next_eq]
    exact hle
  · dsimp only
    rw [h.next_eq]
    exact hhead
  · show page.more.getD false = true ↔ _
    rw [hmore, Bool.not_eq_true', List.isEmpty_eq_false_iff]
  · dsimp only
    rw [hitems]
    exact hstart
  · dsimp only at he ⊢
    rw [hitems] at he
    show page.before.getD 0 = _
    rw [h.before_eq nofun e he]
    rfl

theorem Read.held_before (hv : j.Valid) {keep : Nat} (hkeep : 0 < keep) {older₀ newer₀ : List (Entry α)}
    (hheld : Held j r older₀ newer₀) (hmore : r.more = true) (h : Read j .before r.before page older items newer next) :
    (∃ older', Held j (r.received keep .before page items) older' newer₀) ∧
      (r.received keep .before page items).entries.length ≤ keep := by
  obtain ⟨hbelow, habove, hstart⟩ := h.holds
  have holder₀ : older₀ ≠ [] := hheld.more.mp hmore
  obtain ⟨first, rest, hfirst⟩ := List.exists_cons_of_ne_nil fun hnil => holder₀ (hheld.start hnil)
  have hcursor : r.before = first.sequence := hheld.before hmore first (by rw [hfirst]; rfl)
  obtain ⟨hsorted, hlt, hnewer, -⟩ := pairwise_of_entries hv hheld.entries
  -- The entries before the cursor are the older ones, in both splits of the journal.
  obtain ⟨holder, hnew⟩ : older₀ = older ++ items ∧ r.entries ++ newer₀ = newer := by
    refine split_unique (p := fun e => decide (e.sequence < r.before)) ?_ ?_ ?_ ?_ ?_
    · rw [← List.append_assoc, ← hheld.entries, h.entries]
    · intro e he
      rw [hcursor]
      exact decide_eq_true (hlt e he first (by rw [hfirst]; exact List.mem_cons_self))
    · intro e he
      rw [hcursor]
      refine decide_eq_false (Nat.not_lt.mpr ?_)
      rw [hfirst] at he hsorted hnewer
      rcases List.mem_append.mp he with he | he
      · rcases List.mem_cons.mp he with rfl | he
        · exact Nat.le_refl _
        · exact Nat.le_of_lt ((List.pairwise_cons.mp hsorted).1 e he)
      · exact Nat.le_of_lt (hnewer first (List.mem_append_right _ List.mem_cons_self) e he)
    · exact fun e he => decide_eq_true (hbelow e he)
    · exact fun e he => decide_eq_false (Nat.not_lt.mpr (habove e he))
  have hne : items ≠ [] := fun hnil => holder₀ (by rw [holder, hnil, hstart hnil]; rfl)
  have hentries : j.entries = older ++ (items ++ r.entries) ++ newer₀ := by
    rw [hheld.entries, holder, List.append_assoc older]
  have hitems : Reader.merged (r.entries ++ items) = items ++ r.entries :=
    Reader.merged_eq (List.pairwise_map.mpr (pairwise_of_entries hv hentries).1) List.perm_append_comm
  have hpage : page.more.getD false = !older.isEmpty := by
    rw [h.more_eq]
    rfl
  refine received_of_held hkeep older ⟨?_, ?_, hheld.next_lt, hheld.next_le, ?_, ?_, fun _ e he => ?_⟩
  · dsimp only
    rw [hitems]
    exact hentries
  · dsimp only
    rw [hitems, ← List.append_assoc, ← holder]
    exact hheld.le_next
  · show page.more.getD false = true ↔ _
    rw [hpage, Bool.not_eq_true', List.isEmpty_eq_false_iff]
  · dsimp only
    rw [hitems]
    exact fun hnil => absurd (List.append_eq_nil_iff.mp hnil).1 hne
  · dsimp only at he ⊢
    rw [hitems, List.head?_append_of_ne_nil _ hne] at he
    show page.before.getD 0 = _
    rw [h.before_eq nofun e he]
    rfl

theorem Read.held_after (hv : j.Valid) {keep : Nat} (hkeep : 0 < keep) {older₀ newer₀ : List (Entry α)}
    (hheld : Held j r older₀ newer₀) (h : Read j .after r.next page older items newer next) :
    (∃ older', Held j (r.received keep .after page items) older' newer) ∧
      (r.received keep .after page items).entries.length ≤ keep := by
  obtain ⟨hbelow, habove, hend⟩ := h.holds
  obtain ⟨holder, hnew⟩ : older = older₀ ++ r.entries ∧ items ++ newer = newer₀ := by
    refine split_unique (p := fun e => decide (e.sequence ≤ r.next)) ?_ ?_ ?_ ?_ ?_
    · rw [← List.append_assoc, ← hheld.entries, h.entries]
    · exact fun e he => decide_eq_true (hbelow e he)
    · exact fun e he => decide_eq_false (Nat.not_le.mpr (habove e he))
    · exact fun e he => decide_eq_true (hheld.le_next e he)
    · exact fun e he => decide_eq_false (Nat.not_le.mpr (hheld.next_lt e he))
  have hentries : j.entries = older₀ ++ (r.entries ++ items) ++ newer := by
    rw [h.entries, holder]
    simp only [List.append_assoc]
  have hitems : Reader.merged (r.entries ++ items) = r.entries ++ items :=
    Reader.merged_eq (List.pairwise_map.mpr (pairwise_of_entries hv hentries).1) (List.Perm.refl _)
  have hall : j.entries = (older₀ ++ r.entries) ++ items ++ newer := by
    rw [hentries]
    simp only [List.append_assoc]
  obtain ⟨hle, hhead⟩ := h.le_next hv hall fun hnil e he =>
    Nat.le_trans (hheld.le_next e he) ((h.none_read hnil).2 rfl)
  refine received_of_held hkeep older₀ ⟨?_, ?_, ?_, ?_, hheld.more, ?_, fun hmore e he => ?_⟩
  · dsimp only
    rw [hitems]
    exact hentries
  · dsimp only
    rw [hitems, h.next_eq, ← List.append_assoc]
    exact hle
  · show ∀ e ∈ newer, page.next.getD 0 < e.sequence
    rw [h.next_eq]
    intro e he
    cases hlast : items.getLast? with
    | none =>
      rw [hend (List.getLast?_eq_none_iff.mp hlast)] at he
      cases he
    | some last =>
      have hmem : last ∈ older ++ items := List.mem_append_right _ (List.mem_of_getLast? hlast)
      show next < _
      rw [h.last last hlast]
      exact (pairwise_of_entries hv h.entries).2.2.1 last hmem e he
  · show page.next.getD 0 ≤ j.head
    rw [h.next_eq]
    exact hhead
  · dsimp only
    rw [hitems]
    exact fun hnil => hheld.start (List.append_eq_nil_iff.mp hnil).1
  · have hne : r.entries ≠ [] := fun hnil => hheld.more.mp hmore (hheld.start hnil)
    dsimp only at he ⊢
    rw [hitems, List.head?_append_of_ne_nil _ hne] at he
    exact hheld.before hmore e he

/-! ## Every step keeps the window -/

section
variable {keep : Nat} {w : World α}

theorem Window.read (h : Window keep w) {direction : Direction}
    (hd : direction = .tail ∧ w.reader.initialized = false ∨ direction = .before ∨
      direction = .after ∧ w.reader.initialized = true) : Window keep { w with reader := w.reader.read keep direction } := by
  unfold Reader.read
  split
  · exact h
  · rename_i hfree
    rw [not_or, not_and_or] at hfree
    refine ⟨h.valid, h.bound, fun hfresh => ?_, fun hbegun => ?_, fun hbusy => ?_, fun hbegun => ?_, fun _ => rfl⟩
    · obtain ⟨hentries, hmore, -, hfailed, -⟩ := h.fresh hfresh
      rcases hd with ⟨rfl, -⟩ | rfl | ⟨-, hinit⟩
      · exact ⟨hentries, hmore, rfl, hfailed, .inr rfl⟩
      · exact absurd (.inl hmore) (hfree.2.resolve_left fun hne => hne rfl)
      · rw [hinit] at hfresh
        cases hfresh
    · refine ⟨?_, nofun⟩
      rcases hd with ⟨-, hfresh⟩ | rfl | ⟨rfl, -⟩
      · rw [hfresh] at hbegun
        cases hbegun
      · exact nofun
      · exact nofun
    · have hbefore : direction = .before := Option.some.inj hbusy
      have hnot := hfree.2.resolve_left fun hne => hne hbefore
      rw [not_or, Bool.not_eq_false] at hnot
      exact hnot.1
    · obtain ⟨older, newer, hheld⟩ := h.held hbegun
      exact ⟨older, newer, hheld.entries, hheld.le_next, hheld.next_lt, hheld.next_le, hheld.more, hheld.start, hheld.before⟩

theorem Window.stopped (h : Window keep w) {direction : Direction} (hd : w.reader.busy = some direction) (message : String) :
    Window keep { w with reader := w.reader.stopped direction message } := by
  refine ⟨h.valid, h.bound, fun hfresh => ?_, fun hbegun => ⟨nofun, fun _ => ?_⟩, nofun, fun hbegun => ?_, nofun⟩
  · obtain ⟨hentries, hmore, htimer, -, hbusy⟩ := h.fresh hfresh
    have htail : direction = .tail := by
      rw [hd] at hbusy
      exact Option.some.inj (hbusy.resolve_left nofun)
    exact ⟨hentries, hmore, htimer, htail, .inl rfl⟩
  · exact fun htail => (h.begun hbegun).1 (hd.trans (congrArg some htail))
  · obtain ⟨older, newer, hheld⟩ := h.held hbegun
    exact ⟨older, newer, hheld.entries, hheld.le_next, hheld.next_lt, hheld.next_le, hheld.more, hheld.start, hheld.before⟩

/-- A page that is read leaves the entries held, and reads to the end where it holds all newer ones. -/
theorem Window.received (hkeep : 0 < keep) (h : Window keep w) {direction : Direction} (hd : w.reader.busy = some direction)
    {page : JournalPage α} (hpage : Answers w.journal direction (w.reader.cursor direction) page) {items : List (Entry α)}
    (hread : readRecentPage page direction (w.reader.cursor direction) = some items) :
    (∃ older newer, Held w.journal (w.reader.received keep direction page items) older newer ∧
      (direction = .after → page.more = some (!newer.isEmpty))) ∧
      (w.reader.received keep direction page items).entries.length ≤ keep := by
  obtain ⟨older, newer, next, hanswer⟩ := hpage.read hread
  have hinit : direction ≠ .tail → w.reader.initialized = true := by
    intro hne
    by_contra hfresh
    rw [Bool.not_eq_true] at hfresh
    have hbusy := (h.fresh hfresh).2.2.2.2
    rw [hd] at hbusy
    exact hne (Option.some.inj (hbusy.resolve_left nofun))
  cases direction with
  | tail =>
    have hfresh : w.reader.initialized = false := by
      by_contra hbegun
      exact (h.begun (Bool.not_eq_false _ ▸ hbegun)).1 hd
    obtain ⟨⟨older', hheld⟩, hbound⟩ := hanswer.held_tail h.valid hkeep (h.fresh hfresh).1
    exact ⟨⟨older', newer, hheld, nofun⟩, hbound⟩
  | before =>
    obtain ⟨older₀, newer₀, hheld₀⟩ := h.held (hinit nofun)
    obtain ⟨⟨older', hheld⟩, hbound⟩ := hanswer.held_before h.valid hkeep hheld₀ (h.older hd)
    exact ⟨⟨older', newer₀, hheld, nofun⟩, hbound⟩
  | after =>
    obtain ⟨older₀, newer₀, hheld₀⟩ := h.held (hinit nofun)
    obtain ⟨⟨older', hheld⟩, hbound⟩ := hanswer.held_after h.valid hkeep hheld₀
    exact ⟨⟨older', newer, hheld, fun _ => hanswer.more_eq⟩, hbound⟩

theorem trim_rest (keep : Nat) (r : Reader α) : (r.trim keep).busy = r.busy ∧ (r.trim keep).reason = r.reason ∧
    (r.trim keep).failed = r.failed := by
  unfold Reader.trim
  split <;> exact ⟨rfl, rfl, rfl⟩

theorem received_rest (keep : Nat) (direction : Direction) (page : JournalPage α) (items : List (Entry α)) (r : Reader α) :
    (r.received keep direction page items).busy = r.busy ∧ (r.received keep direction page items).reason = r.reason ∧
      (r.received keep direction page items).failed = r.failed := by
  cases direction <;> exact trim_rest keep _

theorem received_initialized (keep : Nat) (direction : Direction) (page : JournalPage α) (items : List (Entry α))
    (r : Reader α) : (r.received keep direction page items).initialized = true := rfl

/-- What an answered request leaves. -/
theorem Window.answered (hkeep : 0 < keep) (h : Window keep w) {page : JournalPage α}
    (hfaithful : Faithful w (.answered page)) : Window keep { w with reader := w.reader.answered keep page } := by
  unfold Reader.answered
  split
  · exact h
  · rename_i direction hd
    have hpage := hfaithful direction hd
    split
    · exact h.stopped hd _
    · rename_i items hread
      obtain ⟨⟨older, newer, hheld, -⟩, hbound⟩ := h.received hkeep hd hpage hread
      obtain ⟨hbusy, hreason, hfailed⟩ := received_rest keep direction page items w.reader
      have hinit := received_initialized keep direction page items w.reader
      have hquiet : w.reader.reason = none := h.quiet (by rw [hd]; rfl)
      split
      · rename_i hmore
        obtain ⟨rfl, -⟩ := hmore
        refine ⟨h.valid, hbound, fun hfresh => ?_, fun _ => ?_, fun hb => ?_, fun _ => ⟨older, newer, hheld⟩,
          fun _ => hreason.trans hquiet⟩
        · rw [hinit] at hfresh
          cases hfresh
        · rw [hbusy, hreason, hquiet, hd]
          exact ⟨nofun, nofun⟩
        · rw [hbusy, hd] at hb
          cases hb
      · refine ⟨h.valid, hbound, fun hfresh => ?_, fun _ => ⟨nofun, ?_⟩, nofun, fun _ => ⟨older, newer, ?_⟩, nofun⟩
        · exact absurd hfresh (by rw [hinit]; exact nofun)
        · rw [hreason, hquiet]
          exact nofun
        · exact ⟨hheld.entries, hheld.le_next, hheld.next_lt, hheld.next_le, hheld.more, hheld.start, hheld.before⟩

theorem Window.step (hkeep : 0 < keep) (h : Window keep w) {a : Action α} (ha : Faithful w a) :
    Window keep (RecentJournal.step keep w a) := by
  cases a with
  | grow e =>
    have hlt : w.journal.head < e.sequence := ha
    have hvalid : Journal.Valid ⟨w.journal.entries ++ [e], e.sequence⟩ := by
      refine ⟨?_, fun x hx => ?_, fun x hx => ?_⟩
      · rw [List.map_append, List.pairwise_append]
        refine ⟨h.valid.sorted, List.pairwise_singleton _ _, ?_⟩
        intro m hm n hn
        obtain ⟨x, hx, rfl⟩ := List.mem_map.mp hm
        rw [List.map_singleton, List.mem_singleton] at hn
        rw [hn]
        exact Nat.lt_of_le_of_lt (h.valid.le_head x hx) hlt
      · rcases List.mem_append.mp hx with hx | hx
        · exact h.valid.positive x hx
        · rw [List.mem_singleton.mp hx]
          exact Nat.lt_of_le_of_lt (Nat.zero_le _) hlt
      · rcases List.mem_append.mp hx with hx | hx
        · exact Nat.le_of_lt (Nat.lt_of_le_of_lt (h.valid.le_head x hx) hlt)
        · rw [List.mem_singleton.mp hx]
    refine ⟨hvalid, h.bound, h.fresh, h.begun, h.older, fun hbegun => ?_, h.quiet⟩
    obtain ⟨older, newer, hheld⟩ := h.held hbegun
    refine ⟨older, newer ++ [e], ?_, hheld.le_next, fun x hx => ?_, ?_, hheld.more, hheld.start, hheld.before⟩
    · show w.journal.entries ++ [e] = _
      rw [hheld.entries, List.append_assoc _ newer]
      rfl
    · rcases List.mem_append.mp hx with hx | hx
      · exact hheld.next_lt x hx
      · rw [List.mem_singleton.mp hx]
        exact Nat.lt_of_le_of_lt hheld.next_le hlt
    · exact Nat.le_of_lt (Nat.lt_of_le_of_lt hheld.next_le hlt)
  | advance n =>
    have hvalid : Journal.Valid { w.journal with head := max w.journal.head n } :=
      ⟨h.valid.sorted, h.valid.positive, fun x hx => Nat.le_trans (h.valid.le_head x hx) (Nat.le_max_left _ _)⟩
    refine ⟨hvalid, h.bound, h.fresh, h.begun, h.older, fun hbegun => ?_, h.quiet⟩
    obtain ⟨older, newer, hheld⟩ := h.held hbegun
    exact ⟨older, newer, hheld.entries, hheld.le_next, hheld.next_lt, Nat.le_trans hheld.next_le (Nat.le_max_left _ _),
      hheld.more, hheld.start, hheld.before⟩
  | older => exact h.read (.inr (.inl rfl))
  | refresh =>
    show Window keep { w with reader := w.reader.refresh keep }
    unfold Reader.refresh
    split
    · rename_i htimer
      have hbegun : w.reader.initialized = true := by
        by_contra hfresh
        rw [(h.fresh (Bool.not_eq_true _ ▸ hfresh)).2.2.1] at htimer
        cases htimer
      have hoff : Window keep { w with reader := { w.reader with timer := false } } := by
        refine ⟨h.valid, h.bound, fun hfresh => ?_, h.begun, h.older, fun hb => ?_, h.quiet⟩
        · exact absurd (hfresh.symm.trans hbegun) nofun
        · obtain ⟨older, newer, hheld⟩ := h.held hb
          exact ⟨older, newer, hheld.entries, hheld.le_next, hheld.next_lt, hheld.next_le, hheld.more, hheld.start,
            hheld.before⟩
      exact hoff.read (.inr (.inr ⟨rfl, hbegun⟩))
    · exact h
  | resume =>
    show Window keep { w with reader := w.reader.resume keep }
    unfold Reader.resume
    split
    · rename_i hreason
      apply h.read
      cases hinit : w.reader.initialized with
      | false => exact .inl ⟨(h.fresh hinit).2.2.2.1, rfl⟩
      | true =>
        have hne := (h.begun hinit).2 hreason
        cases hfailed : w.reader.failed with
        | tail => exact absurd hfailed hne
        | before => exact .inr (.inl rfl)
        | after => exact .inr (.inr ⟨rfl, rfl⟩)
    · exact h
  | answered page => exact h.answered hkeep ha
  | unanswered message =>
    show Window keep { w with reader := w.reader.unanswered message }
    unfold Reader.unanswered
    split
    · exact h
    · rename_i direction hd
      exact h.stopped hd message

end

theorem window_opened {j : Journal α} (hj : j.Valid) (keep : Nat) : Window keep (opened keep j) := by
  have hempty : Window keep ⟨j, Reader.empty⟩ :=
    ⟨hj, Nat.zero_le _, fun _ => ⟨rfl, rfl, rfl, rfl, .inl rfl⟩, nofun, nofun, nofun, nofun⟩
  exact hempty.read (.inl ⟨rfl, rfl⟩)

/-- A read of newer entries that ends without failure holds the newest one. -/
theorem Window.newest {keep : Nat} {w : World α} (hkeep : 0 < keep) (h : Window keep w) {page : JournalPage α}
    (hfaithful : Faithful w (.answered page)) (hd : w.reader.busy = some .after)
    (hbusy : (w.reader.answered keep page).busy = none) (hreason : (w.reader.answered keep page).reason = none) :
    (w.reader.answered keep page).entries.getLast? = w.journal.entries.getLast? := by
  revert hbusy hreason
  unfold Reader.answered
  rw [hd]
  dsimp only
  split
  · exact fun _ hreason => nomatch hreason
  · rename_i items hread
    obtain ⟨⟨older, newer, hheld, hmore⟩, -⟩ := h.received hkeep hd (hfaithful .after hd) hread
    split
    · intro hbusy
      rw [(received_rest keep .after page items w.reader).1, hd] at hbusy
      cases hbusy
    · rename_i hend
      intro _ _
      have hnewer : newer = [] := by
        have hnot : ¬ page.more = some true := fun htrue => hend ⟨rfl, htrue⟩
        rw [hmore rfl, Option.some.injEq, Bool.not_eq_true', List.isEmpty_eq_false_iff, not_not] at hnot
        exact hnot
      have hentries := hheld.entries
      rw [hnewer, List.append_nil] at hentries
      rw [hentries]
      cases hlast : (w.reader.received keep .after page items).entries.getLast? with
      | none =>
        have hnil := List.getLast?_eq_none_iff.mp hlast
        rw [hheld.start hnil, hnil]
        rfl
      | some last =>
        rw [List.getLast?_append, hlast]
        rfl

/-- The entries held are a gap-free run of the journal, no more of them than are kept; `backward.more` is set exactly where
the journal has entries before them; and a read of newer entries that ends without failure ends at the journal's newest. -/
theorem recent_window {keep : Nat} (hkeep : 0 < keep) {j : Journal α} (hj : j.Valid) {as : List (Action α)}
    (has : Along (step keep) Faithful (opened keep j) as) {w : World α} (hw : run (step keep) (opened keep j) as = w) :
    (∃ older newer, w.journal.entries = older ++ w.reader.entries ++ newer ∧
      (w.reader.entries ≠ [] → ((w.reader.backward keep).more = true ↔ older ≠ []))) ∧
    (w.reader.entries.map Entry.sequence).Pairwise (· < ·) ∧ w.reader.entries.length ≤ keep ∧
    ∀ page, Faithful w (.answered page) → w.reader.busy = some .after → (w.reader.answered keep page).busy = none →
      (w.reader.answered keep page).reason = none →
      (w.reader.answered keep page).entries.getLast? = w.journal.entries.getLast? := by
  have hwindow : Window keep w := by
    rw [← hw]
    exact run_invariant_along (fun _ _ h ha => h.step hkeep ha) (window_opened hj keep) has
  refine ⟨?_, ?_, hwindow.bound, fun page hpage hd hbusy hreason => hwindow.newest hkeep hpage hd hbusy hreason⟩
  · cases hinit : w.reader.initialized with
    | false =>
      rw [(hwindow.fresh hinit).1]
      exact ⟨[], w.journal.entries, rfl, fun hne => absurd rfl hne⟩
    | true =>
      obtain ⟨older, newer, hheld⟩ := hwindow.held hinit
      exact ⟨older, newer, hheld.entries, fun _ => hheld.more⟩
  · cases hinit : w.reader.initialized with
    | false =>
      rw [(hwindow.fresh hinit).1]
      exact List.Pairwise.nil
    | true =>
      obtain ⟨older, newer, hheld⟩ := hwindow.held hinit
      exact List.pairwise_map.mpr (pairwise_of_entries hwindow.valid hheld.entries).1

namespace Sample

def first : Entry Unit := ⟨3, ()⟩

def second : Entry Unit := ⟨7, ()⟩

def journal : Journal Unit := ⟨[first], 3⟩

/-- The tail of one entry, a failed read of what follows, and the read that finds the entry written meanwhile. -/
def actions : List (Action Unit) :=
  [.answered ⟨"2026-01-01", some [⟨some 3, ()⟩], some 3, some false, some 3⟩, .refresh, .grow second,
    .unanswered "offline", .resume, .answered ⟨"2026-01-01", some [⟨some 7, ()⟩], some 7, some false, none⟩]

theorem journal_valid : journal.Valid :=
  ⟨List.pairwise_singleton _ _, by simp [journal, first], by simp [journal, first]⟩

theorem actions_faithful : Along (step 20000) Faithful (opened 20000 journal) actions := by
  refine ⟨?_, trivial, ?_, trivial, trivial, ?_, trivial⟩
  · intro direction hd
    cases hd
    refine ⟨[], [first], [], rfl, ⟨rfl, nofun⟩, by decide, rfl, rfl, fun _ e he => ?_, fun e he => ?_, nofun⟩
    · cases he
      rfl
    · cases he
      rfl
  · show (3 : Nat) < 7
    decide
  · intro direction hd
    cases hd
    refine ⟨[first], [second], [], rfl, ⟨fun e he => ?_, fun e he => ?_, nofun⟩, by decide, rfl, rfl, fun hne => absurd rfl hne,
      fun e he => ?_, nofun⟩
    · rw [List.mem_singleton.mp he]
      decide +kernel
    · rw [List.append_nil, List.mem_singleton] at he
      rw [he]
      decide +kernel
    · cases he
      rfl

end Sample

theorem recent_window_sample :
    (run (step 20000) (opened 20000 Sample.journal) Sample.actions).reader.entries.length ≤ 20000 :=
  (recent_window (by decide) Sample.journal_valid Sample.actions_faithful rfl).2.2.1

end RecentJournal

end Desk
