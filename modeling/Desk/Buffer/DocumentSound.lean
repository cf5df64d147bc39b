import Desk.Buffer.Document
import Mathlib.Data.List.Induction

/-!
# No work lost or misplaced

Runs of calls on one buffer. Both counters only grow, so a ticket that is
accepted late is about the document it was taken on; a stack entry is a text
that stood on the document the buffer is on; undo reads the stack as an undo
history of fixed depth.
-/

namespace Desk.DocumentBuffer

/-! ## What one call does -/

theorem commit_none {b : DocumentBuffer} (h : b.current = none) (next : Units) (key : Option Units) :
    b.commit next key = { b with text := some next } := by
  unfold commit
  split
  · rfl
  · simp_all

theorem commit_some {b : DocumentBuffer} {previous : Units} (h : b.current = some previous) (next : Units)
    (key : Option Units) :
    b.commit next key =
      { b.edited with stack := pushed b.stack previous key, current := some next, text := some next } := by
  unfold commit
  split
  · simp_all
  · simp_all

theorem rebase_cases (b : DocumentBuffer) (fresh : FileContent) (expect : Option BufferIdentity) :
    b.rebase fresh expect = (b, false) ∨
    (b.rebase fresh expect = (b.adopt fresh, true) ∧ ∀ ticket, expect = some ticket →
      ticket.generation = b.generationNow ∧ ticket.revision = b.edits ∧
      (b.seeded = none ∨ b.seeded = some ticket.path) ∧ fresh.path = ticket.path) := by
  cases expect with
  | none => exact .inr ⟨rfl, by simp⟩
  | some ticket =>
    simp only [rebase]
    split_ifs with hg hr hs hp
    · exact .inl rfl
    · exact .inl rfl
    · exact .inl rfl
    · exact .inl rfl
    · refine .inr ⟨rfl, ?_⟩
      rintro _ ⟨⟩
      exact ⟨not_ne_iff.mp hg, not_ne_iff.mp hr, by tauto, not_ne_iff.mp hp⟩

theorem landed_cases (b : DocumentBuffer) (fresh : FileContent) (submitted : Units) (expect : Option BufferIdentity) :
    b.landed fresh submitted expect = (b, false) ∨
    (b.landed fresh submitted expect = (b.moved fresh submitted, true) ∧ ∀ ticket, expect = some ticket →
      ticket.generation = b.generationNow ∧ (b.seeded = none ∨ b.seeded = some ticket.path) ∧
      fresh.path = ticket.path) := by
  cases expect with
  | none => exact .inr ⟨rfl, by simp⟩
  | some ticket =>
    simp only [landed]
    split_ifs with hg hs hp
    · exact .inl rfl
    · exact .inl rfl
    · exact .inl rfl
    · refine .inr ⟨rfl, ?_⟩
      rintro _ ⟨⟩
      exact ⟨not_ne_iff.mp hg, by tauto, not_ne_iff.mp hp⟩

/-- A save moves the base; the text and the stack go only where it carried everything. -/
theorem moved_cases (b : DocumentBuffer) (fresh : FileContent) (submitted : Units) :
    (b.moved fresh submitted = { b with seeded := some fresh.path, base := some fresh, waiting := none } ∧
      ¬(b.current = some submitted ∧ fresh.content = submitted)) ∨
    (b.moved fresh submitted =
      { b with
        seeded := some fresh.path, base := some fresh, waiting := none, current := some fresh.content,
        text := some fresh.content, stack := [] } ∧
      b.current = some submitted ∧ fresh.content = submitted) := by
  by_cases h : b.current = some submitted ∧ fresh.content = submitted
  · exact .inr ⟨by simp [moved, h], h⟩
  · exact .inl ⟨by simp only [moved]; rw [if_pos (by tauto)], h⟩

theorem verifiedWrite_cases (b : DocumentBuffer) (beforeSha256 : Units) (file : FileContent) :
    b.verifiedWrite beforeSha256 file = b ∨
    (b.verifiedWrite beforeSha256 file = b.edited.adopt file ∧ b.seeded = some file.path) := by
  unfold verifiedWrite
  split
  · exact .inl rfl
  · rename_i base hb
    split_ifs with h
    · exact .inl rfl
    · push Not at h
      refine .inr ⟨?_, h.2.1⟩
      simp [rebase, edited, h.2.1, h.2.2.1]

theorem follow_cases (b : DocumentBuffer) :
    b.follow = b ∨ b.follow = { b with waiting := none } ∨
    ∃ loaded, b.drawn.loaded = some loaded ∧
      (b.follow = { b with waiting := some loaded } ∨ b.follow = b.adopt loaded ∧ b.seeded ≠ some loaded.path) := by
  unfold follow
  split
  · exact .inl rfl
  · rename_i loaded hl
    split_ifs with hs hd
    · exact .inr (.inl rfl)
    · exact .inr (.inr ⟨loaded, hl, .inl rfl⟩)
    · exact .inr (.inr ⟨loaded, hl, .inr ⟨rfl, hs⟩⟩)

theorem takeWaiting_cases (b : DocumentBuffer) :
    b.takeWaiting = b ∨ ∃ waiting, b.drawn.waiting = some waiting ∧ b.takeWaiting = b.adopt waiting := by
  unfold takeWaiting
  split
  · exact .inl rfl
  · rename_i waiting hw
    split_ifs
    · exact .inl rfl
    · exact .inr ⟨waiting, hw, rfl⟩

/-- The file a call is given. -/
def Call.file : Call → Option FileContent
  | .render loaded _ => loaded
  | .rebase fresh _ => some fresh
  | .verifiedWrite _ file => some file
  | .landed fresh _ _ => some fresh
  | _ => none

/-- All that a call can do. -/
inductive Move (b : DocumentBuffer) : Call → DocumentBuffer → Prop
  | kept (c) : Move b c b
  | drew (loaded otherWork) : Move b (.render loaded otherWork) (b.render loaded otherWork)
  | waited (waiting) (h : ∀ file, waiting = some file → b.drawn.loaded = some file) :
      Move b .follow { b with waiting }
  | typed (next key) (h : b.current = none) : Move b (.commit next key) { b with text := some next }
  | committed (next key previous) (h : b.current = some previous) :
      Move b (.commit next key)
        { b.edited with stack := pushed b.stack previous key, current := some next, text := some next }
  | undid (top) (h : b.drawn.stack.getLast? = some top) :
      Move b .undo
        { b.edited with current := some top.text, text := some top.text, stack := b.drawn.stack.dropLast }
  | emptied (h : b.drawn.base = none) : Move b .discard { b.edited with stack := [] }
  | discarded (base) (h : b.drawn.base = some base) :
      Move b .discard { b.edited with current := some base.content, text := some base.content, stack := [] }
  | touched : Move b .touch b.edited
  | adopted (c file) (h : b.drawn.loaded = some file ∨ b.drawn.waiting = some file ∨ c.file = some file) :
      Move b c (b.adopt file)
  | wrote (beforeSha256 file) : Move b (.verifiedWrite beforeSha256 file) (b.edited.adopt file)
  | landed (fresh submitted expect) (h : (b.landed fresh submitted expect).2 = true) :
      Move b (.landed fresh submitted expect) (b.moved fresh submitted)
  | forgot : Move b .forget b.forget

theorem call_move (b : DocumentBuffer) (c : Call) : Move b c (b.call c) := by
  cases c with
  | render loaded otherWork => exact .drew loaded otherWork
  | follow =>
    obtain h | h | ⟨loaded, hl, h | ⟨h, -⟩⟩ := follow_cases b
    · simp only [call, h]; exact .kept _
    · simp only [call, h]; exact .waited none (by simp)
    · simp only [call, h]; exact .waited (some loaded) (by rintro _ ⟨⟩; exact hl)
    · simp only [call, h]; exact .adopted _ loaded (.inl hl)
  | commit next key =>
    cases h : b.current with
    | none => rw [call, commit_none h]; exact .typed next key h
    | some previous => rw [call, commit_some h]; exact .committed next key previous h
  | undo =>
    cases h : b.drawn.stack.getLast? with
    | none => simp only [call, undo, h]; exact .kept _
    | some top => simp only [call, undo, h]; exact .undid top h
  | discard =>
    cases h : b.drawn.base with
    | none => simp only [call, discard, h]; exact .emptied h
    | some base => simp only [call, discard, h]; exact .discarded base h
  | touch => exact .touched
  | rebase fresh expect =>
    obtain h | ⟨h, -⟩ := rebase_cases b fresh expect
    · simp only [call, h]; exact .kept _
    · simp only [call, h]; exact .adopted _ fresh (.inr (.inr rfl))
  | verifiedWrite beforeSha256 file =>
    obtain h | ⟨h, -⟩ := verifiedWrite_cases b beforeSha256 file
    · simp only [call, h]; exact .kept _
    · simp only [call, h]; exact .wrote beforeSha256 file
  | landed fresh submitted expect =>
    obtain h | ⟨h, -⟩ := landed_cases b fresh submitted expect
    · simp only [call, h]; exact .kept _
    · simp only [call, h]; exact .landed fresh submitted expect (by rw [h])
  | takeWaiting =>
    obtain h | ⟨waiting, hw, h⟩ := takeWaiting_cases b
    · simp only [call, h]; exact .kept _
    · simp only [call, h]; exact .adopted _ waiting (.inr (.inl hw))
  | forget => exact .forgot

/-! ## Runs -/

@[simp] theorem after_nil : after [] = mounted := rfl

theorem after_append (earlier later : List Call) : after (earlier ++ later) = run call (after earlier) later :=
  run_append _ _ _ _

theorem after_snoc (calls : List Call) (c : Call) : after (calls ++ [c]) = (after calls).call c :=
  after_append calls [c]

/-- Every call of a run is one that `P` allows after those before it. -/
def Every (P : List Call → Call → Prop) (calls : List Call) : Prop :=
  ∀ earlier c later, calls = earlier ++ c :: later → P earlier c

theorem Every.snoc {P : List Call → Call → Prop} {calls : List Call} {c : Call} (h : Every P (calls ++ [c])) :
    Every P calls ∧ P calls c := by
  constructor
  · intro earlier d later heq
    exact h earlier d (later ++ [c]) (by simp [heq])
  · exact h calls c [] rfl

theorem every_iff {P : List Call → Call → Prop} {calls : List Call} :
    Every P calls ↔ ∀ i c, calls[i]? = some c → P (calls.take i) c := by
  constructor
  · intro h i c hi
    obtain ⟨hlt, rfl⟩ := List.getElem?_eq_some_iff.mp hi
    exact h (calls.take i) calls[i] (calls.drop (i + 1)) (by simp)
  · rintro h earlier c later rfl
    simpa using h earlier.length c (by simp)

/-! ## The counters -/

theorem le_increment (n : Nat) : n ≤ increment n := by
  unfold increment
  split_ifs <;> omega

theorem increment_le (n : Nat) : increment n ≤ n + 1 := by
  unfold increment
  split_ifs <;> omega

theorem lt_increment {n : Nat} (h : n < 2 ^ 53) : n < increment n := by
  unfold increment
  rw [if_pos h]
  omega

@[simp] theorem moved_counters (b : DocumentBuffer) (fresh : FileContent) (submitted : Units) :
    (b.moved fresh submitted).edits = b.edits ∧ (b.moved fresh submitted).generationNow = b.generationNow ∧
      (b.moved fresh submitted).drawn = b.drawn ∧ (b.moved fresh submitted).seeded = some fresh.path := by
  obtain ⟨h, -⟩ | ⟨h, -⟩ := moved_cases b fresh submitted <;> simp [h]

theorem call_counters (b : DocumentBuffer) (c : Call) :
    (b.edits ≤ (b.call c).edits ∧ (b.call c).edits ≤ b.edits + 1) ∧
    (b.generationNow ≤ (b.call c).generationNow ∧ (b.call c).generationNow ≤ b.generationNow + 1) := by
  have he := le_increment b.edits
  have he' := increment_le b.edits
  have hg := le_increment b.generationNow
  have hg' := increment_le b.generationNow
  obtain h := call_move b c
  generalize b.call c = b' at h
  cases h <;> simp [render, edited, adopt, forget, *]

theorem counters_le (calls : List Call) :
    (after calls).edits ≤ calls.length ∧ (after calls).generationNow ≤ calls.length := by
  induction calls using List.reverseRecOn with
  | nil => simp [mounted]
  | append_singleton calls c ih =>
    obtain ⟨⟨-, he⟩, -, hg⟩ := call_counters (after calls) c
    rw [after_snoc]
    simp only [List.length_append, List.length_singleton]
    omega

theorem counters_grow (earlier later : List Call) :
    (after earlier).edits ≤ (after (earlier ++ later)).edits ∧
    (after earlier).generationNow ≤ (after (earlier ++ later)).generationNow := by
  rw [after_append]
  refine run_invariant (P := fun b : DocumentBuffer =>
    (after earlier).edits ≤ b.edits ∧ (after earlier).generationNow ≤ b.generationNow) (fun b c h => ?_) ?_ later
  · exact ⟨Nat.le_trans h.1 (call_counters b c).1.1, Nat.le_trans h.2 (call_counters b c).2.1⟩
  · exact ⟨Nat.le_refl _, Nat.le_refl _⟩

/-! ## Tickets -/

/-- The ticket is of this buffer, now or earlier. -/
def Holds (ticket : BufferIdentity) (b : DocumentBuffer) : Prop :=
  ticket.generation ≤ b.generationNow ∧ ticket.revision ≤ b.edits ∧
    (ticket.generation = b.generationNow → b.seeded ≠ none)

theorem call_seeded (b : DocumentBuffer) (c : Call) : c = .forget ∨ (b.seeded ≠ none → (b.call c).seeded ≠ none) := by
  have h := call_move b c
  generalize b.call c = b' at h
  cases h with
  | forgot => exact .inl rfl
  | _ => right; simp [render, edited, adopt]

theorem Holds.call {ticket : BufferIdentity} {b : DocumentBuffer} (h : Holds ticket b) (c : Call)
    (bound : b.generationNow < 2 ^ 53) : Holds ticket (b.call c) := by
  obtain ⟨⟨he, -⟩, hg, -⟩ := call_counters b c
  refine ⟨Nat.le_trans h.1 hg, Nat.le_trans h.2.1 he, ?_⟩
  intro heq
  obtain rfl | hs := call_seeded b c
  · have hlt : b.generationNow < (b.call .forget).generationNow := lt_increment bound
    have := h.1
    omega
  · have := h.1
    exact hs (h.2.2 (by omega))

/-- A ticket taken at any moment of a run is of the buffer from there on. -/
theorem Holds.of_identity {calls : List Call} (bound : calls.length ≤ 2 ^ 53) {ticket : BufferIdentity}
    (h : (after calls).identity = some ticket) : Holds ticket (after calls) := by
  induction calls using List.reverseRecOn with
  | nil => simp [mounted, identity] at h
  | append_singleton calls c ih =>
    simp only [List.length_append, List.length_singleton] at bound
    have hg := (counters_le calls).2
    rw [after_snoc] at h ⊢
    have hm := call_move (after calls) c
    by_cases hd : ((after calls).call c).drawn = (after calls).drawn
    · apply Holds.call _ c (by omega)
      apply ih (by omega)
      simpa only [identity, hd] using h
    · generalize hb : (after calls).call c = b' at hm hd h
      cases hm with
      | drew loaded otherWork =>
        simp only [identity, render, identityNow, Option.map_eq_some_iff] at h
        obtain ⟨path, hp, rfl⟩ := h
        exact ⟨Nat.le_refl _, Nat.le_refl _, fun _ => by simp [render, hp]⟩
      | _ => simp [edited, adopt, forget] at hd

theorem Holds.later {earlier later : List Call} (bound : (earlier ++ later).length ≤ 2 ^ 53)
    {ticket : BufferIdentity} (h : (after earlier).identity = some ticket) :
    Holds ticket (after (earlier ++ later)) := by
  induction later using List.reverseRecOn with
  | nil =>
    rw [List.append_nil] at bound ⊢
    exact .of_identity bound h
  | append_singleton later c ih =>
    rw [← List.append_assoc] at bound ⊢
    simp only [List.length_append, List.length_singleton] at bound ih
    have hg := (counters_le (earlier ++ later)).2
    rw [List.length_append] at hg
    rw [after_snoc]
    exact Holds.call (ih (by omega)) c (by omega)

/-- A save carries a ticket taken earlier, or is for the path the buffer is on. -/
def Ticketed : List Call → Prop :=
  Every fun earlier c => ∀ fresh submitted expect, c = .landed fresh submitted expect →
    match expect with
    | none => (after earlier).seeded = some fresh.path
    | some ticket => ∃ before rest, earlier = before ++ rest ∧ (after before).identity = some ticket

/-- A save that lands is about the document the buffer is on. -/
theorem landed_seeded {earlier later : List Call} (bound : (earlier ++ later).length ≤ 2 ^ 53)
    {ticket : BufferIdentity} (h : (after earlier).identity = some ticket) {fresh : FileContent} {submitted : Units}
    (hl : ((after (earlier ++ later)).landed fresh submitted (some ticket)).2 = true) :
    (after (earlier ++ later)).seeded = some ticket.path ∧ fresh.path = ticket.path ∧
      (after (earlier ++ later)).generationNow = ticket.generation := by
  obtain h' | ⟨-, ht⟩ := landed_cases (after (earlier ++ later)) fresh submitted (some ticket)
  · rw [h'] at hl
    cases hl
  · obtain ⟨hg, hs, hp⟩ := ht ticket rfl
    have hsome := (Holds.later bound h).2.2 hg
    exact ⟨hs.resolve_left hsome, hp, hg.symm⟩

theorem Ticketed.landed {calls : List Call} {fresh : FileContent} {submitted : Units} {expect : Option BufferIdentity}
    (h : Ticketed (calls ++ [.landed fresh submitted expect])) (bound : calls.length ≤ 2 ^ 53)
    (hl : ((after calls).landed fresh submitted expect).2 = true) : (after calls).seeded = some fresh.path := by
  have ht := h.snoc.2 fresh submitted expect rfl
  cases expect with
  | none => exact ht
  | some ticket =>
    obtain ⟨before, rest, rfl, hi⟩ := ht
    obtain ⟨hs, hp, -⟩ := landed_seeded bound hi hl
    rw [hs, hp]

/-- A buffer that holds a document has its text on screen, and no ref differs from it. -/
def Seated (b : DocumentBuffer) : Prop :=
  (b.current = none ∨ b.current = b.text) ∧ (b.seeded ≠ none → b.current ≠ none)

theorem Seated.text {b : DocumentBuffer} (h : Seated b) {t : Units} (ht : b.current = some t) : b.text = some t := by
  obtain hn | heq := h.1
  · rw [hn] at ht
    cases ht
  · rw [← heq, ht]

theorem Seated.call {b : DocumentBuffer} (h : Seated b) {c : Call}
    (placed : ∀ fresh submitted expect, c = .landed fresh submitted expect →
      (b.landed fresh submitted expect).2 = true → b.seeded = some fresh.path) : Seated (b.call c) := by
  have hm := call_move b c
  generalize b.call c = b' at hm
  cases hm with
  | kept => exact h
  | drew loaded otherWork =>
    refine ⟨.inr rfl, fun hs => ?_⟩
    obtain hn | heq := h.1
    · exact absurd hn (h.2 hs)
    · simpa [render, ← heq] using h.2 hs
  | waited => exact h
  | typed next key hn => exact ⟨.inl hn, h.2⟩
  | committed next key previous hp => exact ⟨.inr rfl, by simp⟩
  | undid top ht => exact ⟨.inr rfl, by simp⟩
  | emptied => exact h
  | discarded base hb => exact ⟨.inr rfl, by simp⟩
  | touched => exact h
  | adopted _ file => exact ⟨.inr rfl, by simp [adopt]⟩
  | wrote _ file => exact ⟨.inr rfl, by simp [adopt]⟩
  | landed fresh submitted expect hl =>
    have hs := placed fresh submitted expect rfl hl
    obtain ⟨he, -⟩ | ⟨he, -⟩ := moved_cases b fresh submitted
    · rw [he]
      exact ⟨h.1, fun _ => h.2 (by simp [hs])⟩
    · rw [he]
      exact ⟨.inr rfl, by simp⟩
  | forgot => exact ⟨.inl rfl, by simp [forget]⟩

theorem Ticketed.seated {calls : List Call} (h : Ticketed calls) (bound : calls.length ≤ 2 ^ 53) :
    Seated (after calls) := by
  induction calls using List.reverseRecOn with
  | nil => exact ⟨.inl rfl, by simp [mounted]⟩
  | append_singleton calls c ih =>
    simp only [List.length_append, List.length_singleton] at bound
    rw [after_snoc]
    apply (ih h.snoc.1 (by omega)).call
    rintro fresh submitted expect rfl
    exact h.landed (by omega)

/-- The edits of the document a buffer holds. -/
def Edits (b : DocumentBuffer) : Call → Prop
  | .commit _ _ | .discard | .touch => True
  | .undo => b.drawn.stack ≠ []
  | .verifiedWrite beforeSha256 file => b.verifiedWrite beforeSha256 file ≠ b
  | _ => False

theorem Edits.lt {b : DocumentBuffer} {c : Call} (h : Edits b c) (hc : b.current ≠ none) (bound : b.edits < 2 ^ 53) :
    b.edits < (b.call c).edits := by
  have hlt := lt_increment bound
  cases c with
  | commit next key =>
    obtain ⟨previous, hp⟩ := Option.ne_none_iff_exists'.mp hc
    simpa [DocumentBuffer.call, commit_some hp, edited] using hlt
  | undo =>
    obtain ⟨top, ht⟩ := Option.ne_none_iff_exists'.mp (mt List.getLast?_eq_none_iff.mp h)
    simpa [DocumentBuffer.call, undo, ht, edited] using hlt
  | discard => cases hb : b.drawn.base <;> simpa [DocumentBuffer.call, discard, hb, edited] using hlt
  | touch => exact hlt
  | verifiedWrite beforeSha256 file =>
    obtain h' | ⟨h', -⟩ := verifiedWrite_cases b beforeSha256 file
    · exact absurd h' h
    · simpa [DocumentBuffer.call, h', adopt, edited] using hlt
  | _ => exact h.elim

/-- A reload that is adopted is about the document its ticket was taken on, with no edit since. -/
theorem rebase_seeded {earlier later : List Call} (bound : (earlier ++ later).length ≤ 2 ^ 53)
    (ticketed : Ticketed (earlier ++ later)) {ticket : BufferIdentity}
    (h : (after earlier).identity = some ticket) {fresh : FileContent}
    (hr : ((after (earlier ++ later)).rebase fresh (some ticket)).2 = true) :
    ((after (earlier ++ later)).seeded = some ticket.path ∧ fresh.path = ticket.path ∧
      (after (earlier ++ later)).generationNow = ticket.generation) ∧
    ∀ before c rest, later = before ++ c :: rest → ¬Edits (after (earlier ++ before)) c := by
  obtain h' | ⟨-, ht⟩ := rebase_cases (after (earlier ++ later)) fresh (some ticket)
  · rw [h'] at hr
    cases hr
  obtain ⟨hg, hrev, hs, hp⟩ := ht ticket rfl
  have hsome := (Holds.later bound h).2.2 hg
  refine ⟨⟨hs.resolve_left hsome, hp, hg.symm⟩, ?_⟩
  rintro before c rest rfl hedit
  have split : earlier ++ (before ++ c :: rest) = (earlier ++ before) ++ ([c] ++ rest) := by simp
  rw [split] at bound ticketed hg hrev
  have hlen : (earlier ++ before).length < 2 ^ 53 := by
    simp only [List.length_append, List.length_singleton] at bound ⊢
    omega
  have hheld : Holds ticket (after (earlier ++ before)) := Holds.later (Nat.le_of_lt hlen) h
  -- The generation cannot have moved and come back, so the buffer was on a document all along.
  have hgen := (counters_grow (earlier ++ before) ([c] ++ rest)).2
  have hseeded := hheld.2.2 (Nat.le_antisymm hheld.1 (by omega))
  have hmid : Ticketed (earlier ++ before) := by
    intro a d z heq
    exact ticketed a d (z ++ ([c] ++ rest)) (by simp [heq])
  have hcurrent := (hmid.seated (Nat.le_of_lt hlen)).2 hseeded
  have hlt := hedit.lt hcurrent (Nat.lt_of_le_of_lt (counters_le _).1 hlen)
  rw [← after_snoc] at hlt
  rw [← List.append_assoc] at hrev
  have hgrow := (counters_grow (earlier ++ before ++ [c]) rest).1
  have := hheld.2.1
  omega

end Desk.DocumentBuffer
