import Desk.Buffer.DocumentSound
import Mathlib.Data.List.TakeDrop

/-!
# What undo gives back

The undo history as a viewer sees it: the actions made on the document since
it was taken up, the latest last, of which the oldest beyond the depth are
lost. The stack of the buffer is this history, and all its texts belong to
the document the buffer is on.
-/

namespace Desk.DocumentBuffer

/-- An action not taken back: the text it was made on, and the field it typed into. -/
structure Action where
  text : Units
  key : Option Units
  path : Option Units
  generation : Nat

structure History where
  /-- The latest is last. -/
  actions : List Action
  /-- How many of the oldest are beyond the depth. -/
  lost : Nat

namespace History

def empty : History := ⟨[], 0⟩

/-- The actions undo can still take back. -/
def kept (h : History) : List Action := h.actions.drop h.lost

/-- An action is recorded unless it goes on typing into the field of the last one kept. -/
def record (h : History) (a : Action) : History :=
  if a.key ≠ none ∧ h.kept.getLast?.map (·.key) = some a.key then h
  else ⟨h.actions ++ [a], max h.lost (h.actions.length + 1 - UNDO_DEPTH)⟩

def takeBack (h : History) : History := if h.kept = [] then h else ⟨h.actions.dropLast, h.lost⟩

end History

/-- The calls that take a document up or put it down. -/
def Clears (b : DocumentBuffer) : Call → Prop
  | .discard | .forget => True
  | .follow => b.follow.seeded ≠ b.seeded
  | .takeWaiting => b.takeWaiting ≠ b
  | .verifiedWrite beforeSha256 file => b.verifiedWrite beforeSha256 file ≠ b
  | .rebase fresh expect => (b.rebase fresh expect).2 = true
  | .landed fresh submitted expect =>
    (b.landed fresh submitted expect).2 = true ∧ b.current = some submitted ∧ fresh.content = submitted
  | _ => False

instance (b : DocumentBuffer) : (c : Call) → Decidable (Clears b c)
  | .discard | .forget => .isTrue trivial
  | .follow => inferInstanceAs (Decidable (b.follow.seeded ≠ b.seeded))
  | .takeWaiting => inferInstanceAs (Decidable (b.takeWaiting ≠ b))
  | .verifiedWrite beforeSha256 file => inferInstanceAs (Decidable (b.verifiedWrite beforeSha256 file ≠ b))
  | .rebase fresh expect => inferInstanceAs (Decidable ((b.rebase fresh expect).2 = true))
  | .landed fresh submitted expect => inferInstanceAs (Decidable
      ((b.landed fresh submitted expect).2 = true ∧ b.current = some submitted ∧ fresh.content = submitted))
  | .render _ _ | .commit _ _ | .undo | .touch => .isFalse id

def History.next (h : History) (b : DocumentBuffer) (c : Call) : History :=
  if Clears b c then .empty
  else match c with
    | .commit _ key =>
      match b.current with
      | none => h
      | some text => h.record ⟨text, key, b.seeded, b.generationNow⟩
    | .undo => h.takeBack
    | _ => h

/-- The history of a run. -/
def historyFrom (h : History) (b : DocumentBuffer) : List Call → History
  | [] => h
  | c :: rest => historyFrom (h.next b c) (b.call c) rest

def history (calls : List Call) : History := historyFrom .empty mounted calls

theorem historyFrom_append (h : History) (b : DocumentBuffer) (earlier later : List Call) :
    historyFrom h b (earlier ++ later) = historyFrom (historyFrom h b earlier) (run call b earlier) later := by
  induction earlier generalizing h b with
  | nil => rfl
  | cons c earlier ih => exact ih _ _

theorem history_snoc (calls : List Call) (c : Call) :
    history (calls ++ [c]) = (history calls).next (after calls) c :=
  historyFrom_append _ _ calls [c]

/-! ## The stack is the history -/

def Action.snapshot (a : Action) : Snapshot := ⟨a.text, a.key⟩

/-- The stack is what is kept of the history, all of it of the document the buffer is on. -/
structure Kept (h : History) (b : DocumentBuffer) : Prop where
  stack : b.stack = h.kept.map Action.snapshot
  lost : h.lost ≤ h.actions.length
  depth : h.actions.length ≤ h.lost + UNDO_DEPTH
  own : ∀ a ∈ h.actions, a.path = b.seeded ∧ a.generation = b.generationNow

theorem Kept.empty {b : DocumentBuffer} (h : b.stack = []) : Kept .empty b where
  stack := h
  lost := Nat.le_refl _
  depth := by simp [History.empty]
  own := by simp [History.empty]

/-- Nothing the history is about has moved. -/
theorem Kept.same {h : History} {b b' : DocumentBuffer} (k : Kept h b) (hs : b'.stack = b.stack)
    (hp : b'.seeded = b.seeded) (hg : b'.generationNow = b.generationNow) : Kept h b' where
  stack := hs.trans k.stack
  lost := k.lost
  depth := k.depth
  own := by simpa [hp, hg] using k.own

theorem coalesces_kept (kept : List Action) (key : Option Units) :
    coalesces (kept.map Action.snapshot) key = true ↔ key ≠ none ∧ kept.getLast?.map (·.key) = some key := by
  cases key with
  | none => simp [coalesces]
  | some key =>
    cases h : kept.getLast? <;> simp [coalesces, h, Action.snapshot]

theorem History.kept_length (h : History) : h.kept.length = h.actions.length - h.lost := by
  simp [kept]

theorem Kept.record {h : History} {b : DocumentBuffer} (k : Kept h b) {text : Units} (key : Option Units)
    {b' : DocumentBuffer} (hs : b'.stack = pushed b.stack text key) (hp : b'.seeded = b.seeded)
    (hg : b'.generationNow = b.generationNow) :
    Kept (h.record ⟨text, key, b.seeded, b.generationNow⟩) b' := by
  obtain ⟨hstack, hlost, hdepth, hown⟩ := k
  by_cases hc : coalesces b.stack key = true
  · rw [pushed, if_pos hc] at hs
    rw [hstack, coalesces_kept] at hc
    rw [History.record, if_pos hc]
    exact Kept.same ⟨hstack, hlost, hdepth, hown⟩ hs hp hg
  · rw [pushed, if_neg hc] at hs
    rw [hstack, coalesces_kept] at hc
    rw [History.record, if_neg hc]
    have hlen := h.kept_length
    refine ⟨?_, ?_, ?_, ?_⟩
    · have hle : max h.lost (h.actions.length + 1 - UNDO_DEPTH) ≤ h.actions.length := by
        simp only [UNDO_DEPTH] at hdepth ⊢
        omega
      have hkept : (⟨h.actions ++ [⟨text, key, b.seeded, b.generationNow⟩],
          max h.lost (h.actions.length + 1 - UNDO_DEPTH)⟩ : History).kept =
          h.actions.drop (max h.lost (h.actions.length + 1 - UNDO_DEPTH)) ++
            [⟨text, key, b.seeded, b.generationNow⟩] := List.drop_append_of_le_length hle
      rw [hs, hstack, hkept]
      simp only [List.length_append, List.length_map, List.length_singleton, hlen, List.map_append, List.map_cons,
        List.map_nil]
      -- One more than the depth only when the kept actions were already as many.
      split_ifs with hfull
      · have hmax : max h.lost (h.actions.length + 1 - UNDO_DEPTH) = h.lost + 1 := by omega
        have hone : h.actions.length - h.lost + 1 - UNDO_DEPTH = 1 := by omega
        rw [hmax, hone, List.drop_append_of_le_length (by simp only [List.length_map, hlen]; omega), ← List.map_drop,
          History.kept, List.drop_drop]
        rfl
      · have hmax : max h.lost (h.actions.length + 1 - UNDO_DEPTH) = h.lost := by omega
        rw [hmax]
        rfl
    · simp only [List.length_append, List.length_singleton]
      omega
    · simp only [List.length_append, List.length_singleton]
      omega
    · intro a ha
      rw [hp, hg]
      obtain ha | ha := List.mem_append.mp ha
      · exact hown a ha
      · obtain rfl := List.mem_singleton.mp ha
        exact ⟨rfl, rfl⟩

theorem Kept.takeBack {h : History} {b : DocumentBuffer} (k : Kept h b) {top : Snapshot}
    (ht : b.stack.getLast? = some top) {b' : DocumentBuffer} (hs : b'.stack = b.stack.dropLast)
    (hp : b'.seeded = b.seeded) (hg : b'.generationNow = b.generationNow) : Kept h.takeBack b' := by
  obtain ⟨hstack, hlost, hdepth, hown⟩ := k
  have hne : h.kept ≠ [] := by
    rintro hn
    simp [hstack, hn] at ht
  have hlt : h.lost < h.actions.length := by
    have := List.length_pos_iff.mpr hne
    rw [h.kept_length] at this
    omega
  rw [History.takeBack, if_neg hne]
  refine ⟨?_, ?_, ?_, ?_⟩
  · rw [hs, hstack, ← List.map_dropLast, History.kept, History.kept, List.dropLast_drop_eq_drop_dropLast]
  · simp only [List.length_dropLast]
    omega
  · simp only [List.length_dropLast]
    omega
  · intro a ha
    rw [hp, hg]
    exact hown a (List.dropLast_subset _ ha)

theorem Clears.stack {b : DocumentBuffer} {c : Call} (h : Clears b c) : (b.call c).stack = [] := by
  cases c with
  | follow =>
    obtain he | he | ⟨loaded, -, he | ⟨he, -⟩⟩ := follow_cases b <;> simp_all [Clears, call, adopt]
  | discard => cases hb : b.drawn.base <;> simp [call, discard, hb]
  | forget => rfl
  | rebase fresh expect =>
    obtain he | ⟨he, -⟩ := rebase_cases b fresh expect <;> simp_all [Clears, call, adopt]
  | verifiedWrite beforeSha256 file =>
    obtain he | ⟨he, -⟩ := verifiedWrite_cases b beforeSha256 file <;> simp_all [Clears, call, adopt]
  | landed fresh submitted expect =>
    obtain he | ⟨he, -⟩ := landed_cases b fresh submitted expect
    · simp [Clears, he] at h
    · obtain ⟨hm, hn⟩ | ⟨hm, -⟩ := moved_cases b fresh submitted
      · exact absurd h.2 hn
      · simp [call, he, hm]
  | takeWaiting =>
    obtain he | ⟨waiting, -, he⟩ := takeWaiting_cases b <;> simp_all [Clears, call, adopt]
  | _ => exact h.elim

/-- The buffer has been drawn since its stack and its base last moved. -/
def Current (b : DocumentBuffer) : Prop := b.drawn.stack = b.stack ∧ b.drawn.base = b.base

/-- Undo and discard read what is on screen. -/
def Settled : List Call → Prop := Every fun earlier c => c = .undo ∨ c = .discard → Current (after earlier)

theorem Kept.next {h : History} {b : DocumentBuffer} (k : Kept h b) {c : Call}
    (placed : ∀ fresh submitted expect, c = .landed fresh submitted expect →
      (b.landed fresh submitted expect).2 = true → b.seeded = some fresh.path)
    (settled : c = .undo ∨ c = .discard → Current b) : Kept (h.next b c) (b.call c) := by
  unfold History.next
  by_cases hc : Clears b c
  · rw [if_pos hc]
    exact .empty hc.stack
  rw [if_neg hc]
  cases c with
  | render loaded otherWork => exact k.same rfl rfl rfl
  | follow =>
    obtain he | he | ⟨loaded, -, he | ⟨he, hs⟩⟩ := follow_cases b
    · rw [call, he]
      exact k
    · rw [call, he]
      exact k.same rfl rfl rfl
    · rw [call, he]
      exact k.same rfl rfl rfl
    · exact absurd (by simpa [Clears, he, adopt] using Ne.symm hs) hc
  | commit next key =>
    cases hb : b.current with
    | none =>
      rw [call, commit_none hb]
      exact k.same rfl rfl rfl
    | some text =>
      rw [call, commit_some hb]
      exact k.record key rfl rfl rfl
  | undo =>
    have hcur := (settled (.inl rfl)).1
    cases ht : b.drawn.stack.getLast? with
    | none =>
      have hkept : h.kept = [] := by
        rw [hcur, k.stack, List.getLast?_eq_none_iff, List.map_eq_nil_iff] at ht
        exact ht
      simp only [History.takeBack, hkept, if_true, call, undo, ht]
      exact k
    | some top =>
      simp only [call, undo, ht]
      exact k.takeBack (hcur ▸ ht) (by rw [hcur]) rfl rfl
  | touch => exact k.same rfl rfl rfl
  | rebase fresh expect =>
    obtain he | ⟨he, -⟩ := rebase_cases b fresh expect
    · rw [call, he]
      exact k
    · exact absurd (by rw [Clears, he]) hc
  | verifiedWrite beforeSha256 file =>
    rw [call, not_not.mp hc]
    exact k
  | landed fresh submitted expect =>
    obtain he | ⟨he, -⟩ := landed_cases b fresh submitted expect
    · rw [call, he]
      exact k
    · have hs := placed fresh submitted expect rfl (by rw [he])
      obtain ⟨hm, -⟩ | ⟨-, hl⟩ := moved_cases b fresh submitted
      · rw [call, he, hm]
        exact k.same rfl hs.symm rfl
      · exact absurd ⟨by rw [he], hl⟩ hc
  | takeWaiting =>
    rw [call, not_not.mp hc]
    exact k
  | discard => exact absurd trivial hc
  | forget => exact absurd trivial hc

theorem Ticketed.kept {calls : List Call} (h : Ticketed calls) (bound : calls.length ≤ 2 ^ 53)
    (settled : Settled calls) : Kept (history calls) (after calls) := by
  induction calls using List.reverseRecOn with
  | nil => exact .empty rfl
  | append_singleton calls c ih =>
    simp only [List.length_append, List.length_singleton] at bound
    rw [after_snoc, history_snoc]
    apply (ih h.snoc.1 (by omega) settled.snoc.1).next
    · rintro fresh submitted expect rfl
      exact h.landed (by omega)
    · exact settled.snoc.2

/-! ## Whose the texts are -/

/-- A text of the document the buffer is on, from this generation: of a base it had, or typed on it. -/
def Belongs (calls : List Call) (b : DocumentBuffer) (t : Units) : Prop :=
  ∃ earlier later, calls = earlier ++ later ∧ (after earlier).seeded = b.seeded ∧
    (after earlier).generationNow = b.generationNow ∧
    ((∃ file, (after earlier).base = some file ∧ b.seeded = some file.path ∧ file.content = t) ∨
      ∃ key rest, later = .commit t key :: rest)

structure Own (calls : List Call) (b : DocumentBuffer) : Prop where
  base : ∀ file, b.base = some file → b.seeded = some file.path
  text : ∀ t, b.text = some t → Belongs calls b t
  stack : ∀ s ∈ b.stack, Belongs calls b s.text

theorem Belongs.later {calls : List Call} {b b' : DocumentBuffer} {t : Units} (h : Belongs calls b t) (c : Call)
    (hs : b'.seeded = b.seeded) (hg : b'.generationNow = b.generationNow) : Belongs (calls ++ [c]) b' t := by
  obtain ⟨earlier, later, rfl, h1, h2, h⟩ := h
  refine ⟨earlier, later ++ [c], by simp, h1.trans hs.symm, h2.trans hg.symm, ?_⟩
  obtain ⟨file, hb, hp, ht⟩ | ⟨key, rest, rfl⟩ := h
  · exact .inl ⟨file, hb, hs.trans hp, ht⟩
  · exact .inr ⟨key, rest ++ [c], rfl⟩

theorem Belongs.base {calls : List Call} {file : FileContent} (hb : (after calls).base = some file)
    (hs : (after calls).seeded = some file.path) : Belongs calls (after calls) file.content :=
  ⟨calls, [], by simp, rfl, rfl, .inl ⟨file, hb, hs, rfl⟩⟩

theorem mem_pushed {entries : List Snapshot} {previous : Units} {key : Option Units} {s : Snapshot}
    (h : s ∈ pushed entries previous key) : s ∈ entries ∨ s = ⟨previous, key⟩ := by
  have hgrown : ∀ s ∈ entries ++ [⟨previous, key⟩], s ∈ entries ∨ s = ⟨previous, key⟩ := by simp
  simp only [pushed] at h
  split_ifs at h
  · exact .inl h
  · exact hgrown s (List.mem_of_mem_drop h)
  · exact hgrown s h

theorem Own.snoc {calls : List Call} (o : Own calls (after calls)) (seated : Seated (after calls)) {c : Call}
    (placed : ∀ fresh submitted expect, c = .landed fresh submitted expect →
      ((after calls).landed fresh submitted expect).2 = true → (after calls).seeded = some fresh.path)
    (settled : c = .undo ∨ c = .discard → Current (after calls)) :
    Own (calls ++ [c]) (after (calls ++ [c])) := by
  have hm := call_move (after calls) c
  rw [← after_snoc] at hm
  -- A call that takes up a file leaves that file as the base.
  have taken : ∀ {b' : DocumentBuffer} {file : FileContent}, after (calls ++ [c]) = b' → b'.base = some file →
      b'.seeded = some file.path → b'.text = some file.content → b'.stack = [] → Own (calls ++ [c]) b' := by
    intro b' file heq hb hs ht hnil
    refine ⟨?_, ?_, by simp [hnil]⟩
    · intro file' hb'
      rw [hb] at hb'
      obtain rfl := Option.some.inj hb'
      exact hs
    · intro t ht'
      rw [ht] at ht'
      obtain rfl := Option.some.inj ht'
      subst heq
      exact .base hb hs
  generalize hb : after (calls ++ [c]) = b' at hm ⊢
  cases hm with
  | kept => exact ⟨o.base, fun t ht => (o.text t ht).later c rfl rfl, fun s hs => (o.stack s hs).later c rfl rfl⟩
  | drew loaded otherWork =>
    exact ⟨o.base, fun t ht => (o.text t ht).later _ rfl rfl, fun s hs => (o.stack s hs).later _ rfl rfl⟩
  | waited waiting h =>
    exact ⟨o.base, fun t ht => (o.text t ht).later _ rfl rfl, fun s hs => (o.stack s hs).later _ rfl rfl⟩
  | typed next key h =>
    refine ⟨o.base, ?_, fun s hs => (o.stack s hs).later _ rfl rfl⟩
    rintro _ ⟨⟩
    exact ⟨calls, [.commit next key], rfl, rfl, rfl, .inr ⟨key, [], rfl⟩⟩
  | committed next key previous h =>
    refine ⟨o.base, ?_, ?_⟩
    · rintro _ ⟨⟩
      exact ⟨calls, [.commit next key], rfl, rfl, rfl, .inr ⟨key, [], rfl⟩⟩
    · intro s hs
      obtain hs | rfl := mem_pushed hs
      · exact (o.stack s hs).later _ rfl rfl
      · exact (o.text previous (seated.text h)).later _ rfl rfl
  | undid top h =>
    have hcur := (settled (.inl rfl)).1
    refine ⟨o.base, ?_, ?_⟩
    · rintro _ ⟨⟩
      exact (o.stack top (hcur ▸ List.mem_of_getLast? h)).later _ rfl rfl
    · intro s hs
      exact (o.stack s (hcur ▸ List.dropLast_subset _ hs)).later _ rfl rfl
  | emptied h =>
    exact ⟨o.base, fun t ht => (o.text t ht).later _ rfl rfl, by simp⟩
  | discarded base h =>
    have hcur := (settled (.inr rfl)).2
    rw [h] at hcur
    refine ⟨o.base, ?_, by simp⟩
    rintro _ ⟨⟩
    exact (Belongs.base hcur.symm (o.base base hcur.symm)).later _ rfl rfl
  | touched => exact ⟨o.base, fun t ht => (o.text t ht).later _ rfl rfl, fun s hs => (o.stack s hs).later _ rfl rfl⟩
  | adopted _ file h => exact taken hb rfl rfl rfl rfl
  | wrote beforeSha256 file => exact taken hb rfl rfl rfl rfl
  | landed fresh submitted expect h =>
    have hs := placed fresh submitted expect rfl h
    obtain ⟨he, -⟩ | ⟨he, -⟩ := moved_cases (after calls) fresh submitted
    · rw [he]
      refine ⟨?_, fun t ht => (o.text t ht).later _ hs.symm rfl, fun s hs' => (o.stack s hs').later _ hs.symm rfl⟩
      rintro _ ⟨⟩
      rfl
    · rw [he] at hb ⊢
      exact taken hb rfl rfl rfl rfl
  | forgot => exact ⟨by simp [forget], by simp [forget], by simp [forget]⟩

theorem Ticketed.own {calls : List Call} (h : Ticketed calls) (bound : calls.length ≤ 2 ^ 53)
    (settled : Settled calls) : Own calls (after calls) := by
  induction calls using List.reverseRecOn with
  | nil => exact ⟨by simp [mounted], by simp [mounted], by simp [mounted]⟩
  | append_singleton calls c ih =>
    simp only [List.length_append, List.length_singleton] at bound
    apply (ih h.snoc.1 (by omega) settled.snoc.1).snoc (Ticketed.seated h.snoc.1 (by omega))
    · rintro fresh submitted expect rfl
      exact h.landed (by omega)
    · exact settled.snoc.2

/-! ## The buffer keeps its work -/

/-- The answer is about the document the ticket was taken on, and the buffer is still on it. -/
def OnTicket (ticket : BufferIdentity) (fresh : FileContent) (taken b : DocumentBuffer) : Prop :=
  fresh.path = ticket.path ∧ b.seeded = some ticket.path ∧ taken.generationNow = ticket.generation ∧
    b.generationNow = ticket.generation

/-- An action gives back a text of the document the buffer is on. -/
def GivesBack (calls : List Call) (b : DocumentBuffer) (a : Action) : Prop :=
  a.path = b.seeded ∧ a.generation = b.generationNow ∧ Belongs calls b a.text

theorem ticket_generation {earlier later : List Call} (bound : (earlier ++ later).length ≤ 2 ^ 53)
    {ticket : BufferIdentity} (h : (after earlier).identity = some ticket)
    (hg : (after (earlier ++ later)).generationNow = ticket.generation) :
    (after earlier).generationNow = ticket.generation := by
  have hle := (counters_grow earlier later).2
  rw [List.length_append] at bound
  have hheld := (Holds.of_identity (by omega) h).1
  omega

theorem landed_text {b : DocumentBuffer} (seated : Seated b) (fresh : FileContent) (submitted : Units)
    (expect : Option BufferIdentity) :
    (b.landed fresh submitted expect).1.text = b.text ∧
      ((b.landed fresh submitted expect).1.stack ≠ b.stack →
        b.text = some submitted ∧ fresh.content = submitted) := by
  obtain he | ⟨he, -⟩ := landed_cases b fresh submitted expect
  · simp [he]
  · obtain ⟨hm, -⟩ | ⟨hm, hc, hf⟩ := moved_cases b fresh submitted
    · simp [he, hm]
    · have ht := seated.text hc
      simp [he, hm, ht, hf]

theorem undo_text {calls : List Call} {b : DocumentBuffer} (k : Kept (history calls) b) (current : Current b) :
    match (history calls).kept.getLast? with
    | none => b.undo = b
    | some a => b.undo.text = some a.text := by
  have hstack := current.1.trans k.stack
  cases h : (history calls).kept.getLast? with
  | none =>
    have ht : b.drawn.stack.getLast? = none := by rw [hstack, List.getLast?_map, h]; rfl
    simp [undo, ht]
  | some a =>
    have ht : b.drawn.stack.getLast? = some a.snapshot := by rw [hstack, List.getLast?_map, h]; rfl
    simp [undo, ht, Action.snapshot]

/-- A late answer moves the buffer only on the document its ticket was taken on, and a
reload only with no edit since; a save never moves the text and forgets the history only
where it carried the text on screen; dirty compares the text with the base; and undo, once
the buffer is drawn, takes back the actions kept of the history, all of this document. -/
theorem buffer_keeps_work (calls : List Call) (bound : calls.length ≤ 2 ^ 53) (ticketed : Ticketed calls) :
    (∀ earlier later, calls = earlier ++ later → ∀ ticket, (after earlier).identity = some ticket → ∀ fresh,
      (∀ submitted, (after calls).landed fresh submitted (some ticket) ≠ (after calls, false) →
        OnTicket ticket fresh (after earlier) (after calls)) ∧
      ((after calls).rebase fresh (some ticket) ≠ (after calls, false) →
        OnTicket ticket fresh (after earlier) (after calls) ∧
        ∀ before c rest, later = before ++ c :: rest → ¬Edits (after (earlier ++ before)) c)) ∧
    (∀ fresh submitted expect,
      ((after calls).landed fresh submitted expect).1.text = (after calls).text ∧
      (((after calls).landed fresh submitted expect).1.stack ≠ (after calls).stack →
        (after calls).text = some submitted ∧ fresh.content = submitted)) ∧
    (∀ loaded otherWork, ((after calls).render loaded otherWork).drawn.dirty = true ↔
      ∃ text base, (after calls).text = some text ∧ (after calls).base = some base ∧ text ≠ base.content) ∧
    (Settled calls →
      (after calls).stack = (history calls).kept.map Action.snapshot ∧
      (after calls).stack.length ≤ UNDO_DEPTH ∧
      (∀ a ∈ (history calls).kept, GivesBack calls (after calls) a) ∧
      (Current (after calls) →
        match (history calls).kept.getLast? with
        | none => (after calls).undo = after calls
        | some a => (after calls).undo.text = some a.text)) := by
  refine ⟨?_, ?_, ?_, ?_⟩
  · rintro earlier later rfl ticket hi fresh
    refine ⟨fun submitted hne => ?_, fun hne => ?_⟩
    · obtain he | ⟨he, -⟩ := landed_cases (after (earlier ++ later)) fresh submitted (some ticket)
      · exact absurd he hne
      · obtain ⟨hs, hp, hg⟩ := landed_seeded bound hi (by rw [he])
        exact ⟨hp, hs, ticket_generation bound hi hg, hg⟩
    · obtain he | ⟨he, -⟩ := rebase_cases (after (earlier ++ later)) fresh (some ticket)
      · exact absurd he hne
      · obtain ⟨⟨hs, hp, hg⟩, hedits⟩ := rebase_seeded bound ticketed hi (by rw [he])
        exact ⟨⟨hp, hs, ticket_generation bound hi hg, hg⟩, hedits⟩
  · exact landed_text (ticketed.seated bound)
  · intro loaded otherWork
    cases ht : (after calls).text <;> cases hb : (after calls).base <;> simp [render, dirty, ht, hb]
  · intro settled
    have k := ticketed.kept bound settled
    have o := ticketed.own bound settled
    refine ⟨k.stack, ?_, ?_, undo_text k⟩
    · rw [k.stack, List.length_map, History.kept_length]
      have := k.depth
      omega
    · intro a ha
      obtain ⟨hp, hg⟩ := k.own a (List.mem_of_mem_drop ha)
      have hs : a.snapshot ∈ (after calls).stack := by
        rw [k.stack]
        exact List.mem_map_of_mem ha
      exact ⟨hp, hg, o.stack _ hs⟩

/-- A document with the text `0`, taken up and drawn. -/
def opened : List Call :=
  [.render (some ⟨[112], [], [48]⟩) false, .follow, .render (some ⟨[112], [], [48]⟩) false]

/-- One undo takes back every commit that went on typing into one field, and takes back
nothing of a commit that is not drawn yet. -/
theorem one_undo_takes_back_typing :
    (after (opened ++ [.commit [49] (some [107]), .render none false])).text = some [49] ∧
    (after (opened ++ [.commit [49] (some [107]), .render none false, .commit [50] (some [107]), .render none false,
      .undo])).text = some [48] ∧
    (after (opened ++ [.commit [49] none, .undo])).text = some [49] := by
  decide

/-- The document is edited twice while its save is in flight. -/
def saved : List Call :=
  [.render (some ⟨[112], [], [48]⟩) false, .follow, .render none false, .commit [49] none, .render none false,
    .commit [50] none, .landed ⟨[112], [], [49]⟩ [49] (some ⟨[112], 0, 0⟩), .render none false]

theorem saved_ticketed : Ticketed saved := by
  rw [Ticketed, every_iff]
  rintro i _ hi fresh submitted expect rfl
  match i with
  | 6 =>
    obtain ⟨rfl, rfl, rfl⟩ : fresh = ⟨[112], [], [49]⟩ ∧ submitted = [49] ∧ expect = some ⟨[112], 0, 0⟩ := by
      simpa [saved, eq_comm] using hi
    exact ⟨saved.take 3, (saved.take 6).drop 3, rfl, by decide⟩
  | 0 | 1 | 2 | 3 | 4 | 5 | 7 | _ + 8 => simp [saved] at hi

theorem saved_settled : Settled saved := by
  rw [Settled, every_iff]
  rintro i c hi (rfl | rfl)
  all_goals
    match i with
    | 0 | 1 | 2 | 3 | 4 | 5 | 6 | 7 | _ + 8 => simp [saved] at hi

theorem buffer_keeps_work_saved :
    saved.length ≤ 2 ^ 53 ∧ Ticketed saved ∧ Settled saved ∧
      (after saved).stack = (history saved).kept.map Action.snapshot :=
  ⟨by decide, saved_ticketed, saved_settled,
    ((buffer_keeps_work saved (by decide) saved_ticketed).2.2.2 saved_settled).1⟩

end Desk.DocumentBuffer
