import Desk.Sources.Tools
import Mathlib.Algebra.Ring.Int.Defs

/-!
# The research budget, and reading on

No interleaving of the calls spends more than the budget, and the windows of a page
are the whole of it.
-/

namespace Desk.Sources.Tools

open JsonParse (stringify)

/-! ## The accounts -/

/-- What the calls of a run keep of its budget. -/
structure Kept (budget : Budget) (s : State) : Prop where
  bytes : s.spent.bytes ≤ budget.bytes
  counts : ∀ kind, s.spent.of kind ≤ budget.of kind
  alone : s.flights.length ≤ 1
  once : s.settled.map Prod.fst ++ s.flights.map Flight.number = List.range s.reserved.length
  held : ∀ f ∈ s.flights, s.reserved[f.number]? = some f.limit ∧ 0 ≤ f.limit ∧ s.spent.bytes = budget.bytes
  within : ∀ p ∈ s.settled, ∃ limit, s.reserved[p.1]? = some limit ∧ 0 ≤ p.2 ∧ p.2 ≤ limit
  total : s.spent.bytes = (s.settled.map Prod.snd).sum + (s.flights.map Flight.limit).sum

variable {budget : Budget} {s : State}

theorem Kept.begin_ (ledger : Ledger (List SearchHit) Told) (now : Int) : Kept budget (Tools.begin_ ledger now) where
  bytes := Int.natCast_nonneg _
  counts kind := by cases kind <;> exact Nat.zero_le _
  alone := Nat.zero_le _
  once := rfl
  held := nofun
  within := nofun
  total := rfl

theorem Kept.settleRecord (h : Kept budget s) (id : Units) (outcome : Outcome (List SearchHit) Told) :
    Kept budget (settleRecord s id outcome) :=
  ⟨h.bytes, h.counts, h.alone, h.once, h.held, h.within, h.total⟩

/-- What overBudget lets pass has a call left, and bytes. -/
theorem overBudget_eq_none {spent : Spent} {kind : Kind} {now : Int} (h : overBudget budget spent kind now = none) :
    spent.of kind < budget.of kind ∧ spent.bytes < budget.bytes := by
  unfold overBudget at h
  split at h
  · cases h
  · split at h
    · cases h
    · split at h
      · cases h
      · exact ⟨by omega, by omega⟩

theorem of_count (spent : Spent) (kind k : Kind) : (spent.count kind).of k = if k = kind then spent.of k + 1 else spent.of k := by
  cases kind <;> cases k <;> rfl

/-- A call that leaves takes all that is left. -/
theorem Kept.depart (h : Kept budget s) {ledger : Ledger (List SearchHit) Told} {kind : Kind} {spent : Spent} {f : Flight}
    (hbytes : s.spent.bytes < budget.bytes) (hcount : s.spent.of kind < budget.of kind)
    (hspent : ∀ k, spent.of k = if k = kind then s.spent.of k + 1 else s.spent.of k) (hfull : spent.bytes = budget.bytes)
    (hnumber : f.number = s.reserved.length) (hlimit : f.limit = budget.bytes - s.spent.bytes) :
    Kept budget (s.depart ledger spent f) := by
  have hnone : s.flights = [] := by
    cases hflights : s.flights with
    | nil => rfl
    | cons g rest =>
      have hheld := (h.held g (hflights ▸ List.mem_cons_self)).2.2
      omega
  have honce := h.once
  have htotal := h.total
  rw [hnone, List.map_nil] at honce htotal
  rw [List.append_nil] at honce
  rw [List.sum_nil, Int.add_zero] at htotal
  have hflights : (s.depart ledger spent f).flights = [f] := by rw [State.depart, hnone, List.nil_append]
  refine ⟨Int.le_of_eq hfull, fun k => ?_, ?_, ?_, fun g hg => ?_, fun p hp => ?_, ?_⟩
  · show spent.of k ≤ budget.of k
    have hk := h.counts k
    rw [hspent]
    split
    · next heq =>
      subst heq
      exact hcount
    · exact hk
  · rw [hflights]
    exact Nat.le_refl _
  · rw [hflights]
    show s.settled.map Prod.fst ++ [f.number] = List.range (s.reserved ++ [f.limit]).length
    rw [honce, hnumber, List.length_append, List.length_singleton, List.range_succ]
  · rw [hflights, List.mem_singleton] at hg
    subst hg
    refine ⟨?_, by omega, hfull⟩
    show (s.reserved ++ [g.limit])[g.number]? = some g.limit
    rw [hnumber, List.getElem?_append_right (Nat.le_refl _), Nat.sub_self]
    rfl
  · obtain ⟨limit, hget, hle⟩ := h.within p hp
    obtain ⟨hlt, -⟩ := List.getElem?_eq_some_iff.mp hget
    exact ⟨limit, by rw [State.depart, List.getElem?_append_left hlt, hget], hle⟩
  · rw [hflights, List.map_singleton, List.sum_singleton]
    show spent.bytes = (s.settled.map Prod.snd).sum + f.limit
    omega

/-- A call is answered as things stand, or leaves. -/
theorem Kept.ask {deps : Deps} (h : Kept deps.budget s) (kind : Kind) (request : Request) (offset : Nat) (now : Int) :
    Kept deps.budget (ask deps s kind request offset now).1 := by
  unfold Tools.ask
  split
  · exact h
  · next hnone =>
    obtain ⟨hcount, hbytes⟩ := overBudget_eq_none hnone
    split
    · exact h
    · next limit spent hreserve =>
      unfold reserve at hreserve
      rw [if_neg (by omega), Option.some.injEq, Prod.mk.injEq] at hreserve
      obtain ⟨rfl, rfl⟩ := hreserve
      refine h.depart hbytes hcount (fun k => ?_) ?_ rfl rfl
      · rw [of_count]
        cases k <;> rfl
      · have hfull : s.spent.bytes + ((deps.budget.bytes : Int) - s.spent.bytes) = deps.budget.bytes := by omega
        cases kind <;> exact hfull

/-- The call that is in flight gives back what it did not use. -/
theorem Kept.settleFlight {f : Flight} (h : Kept budget s) (hf : f ∈ s.flights) {used : Int} (hused : 0 ≤ used) :
    Kept budget (settleFlight s f used) := by
  have hone : s.flights = [f] := by
    have halone := h.alone
    cases hflights : s.flights with
    | nil =>
      rw [hflights] at hf
      cases hf
    | cons g rest =>
      rw [hflights, List.length_cons] at halone
      have hrest : rest = [] := List.length_eq_zero_iff.mp (by omega)
      rw [hflights, hrest, List.mem_singleton] at hf
      rw [hf, hrest]
  obtain ⟨hlimit, hnonneg, hfull⟩ := h.held f hf
  have hnone : (s.flights.filter fun g => decide (g.number ≠ f.number)) = [] := by
    rw [hone]
    simp
  have honce := h.once
  have htotal := h.total
  rw [hone] at honce htotal
  rw [List.map_singleton, List.sum_singleton] at htotal
  have hbytes : s.spent.bytes - (f.limit - min used f.limit) = (s.settled.map Prod.snd).sum + min used f.limit := by omega
  refine ⟨?_, h.counts, ?_, ?_, ?_, ?_, ?_⟩
  · show s.spent.bytes - (f.limit - min used f.limit) ≤ _
    omega
  · exact Nat.le_trans (List.length_filter_le _ _) h.alone
  · show (s.settled ++ [(f.number, min used f.limit)]).map Prod.fst ++ (s.flights.filter _).map Flight.number = _
    rw [hnone, List.map_append, List.map_nil, List.append_nil]
    exact honce
  · intro g hg
    rw [show (Tools.settleFlight s f used).flights = [] from hnone] at hg
    cases hg
  · intro p hp
    rcases List.mem_append.mp hp with hp | hp
    · exact h.within p hp
    · rw [List.mem_singleton.mp hp]
      exact ⟨f.limit, hlimit, by show 0 ≤ min used f.limit; omega, Int.min_le_right _ _⟩
  · show s.spent.bytes - (f.limit - min used f.limit) =
      ((s.settled ++ [(f.number, min used f.limit)]).map Prod.snd).sum + ((s.flights.filter _).map Flight.limit).sum
    rw [hnone, List.map_append, List.sum_append, hbytes]
    simp

theorem Kept.settleResult {deps : Deps} (h : Kept deps.budget s) (f : Flight) (a : Acquired) :
    Kept deps.budget (settleResult deps s f a).1 := by
  unfold Tools.settleResult
  split
  · split <;> exact h.settleRecord _ _
  · split <;> exact h.settleRecord _ _

/-- Each of the exits settles the reservation. -/
theorem Kept.resume {deps : Deps} {f : Flight} (h : Kept deps.budget s) (hf : f ∈ s.flights) (answer : Answer) :
    Kept deps.budget (resume deps s f answer).1 := by
  have hlimit := (h.held f hf).2.1
  cases answer with
  | acquired a => exact (h.settleFlight hf (Int.natCast_nonneg _)).settleResult f a
  | overBudget limit => exact (h.settleFlight hf hlimit).settleRecord _ _
  | gateway message => exact (h.settleFlight hf (Int.le_refl 0)).settleRecord _ _
  | aborted => exact (h.settleFlight hf (Int.le_refl 0)).settleRecord _ _
  | failed message => exact (h.settleFlight hf (Int.le_refl 0)).settleRecord _ _

theorem Kept.step {deps : Deps} (h : Kept deps.budget s) (event : Event) : Kept deps.budget (step deps s event) := by
  cases event with
  | search query now =>
    show Kept _ (searchSources deps s query now).1
    unfold searchSources
    dsimp only
    split
    · exact h
    · split
      · exact h
      · exact h.ask _ _ _ _
  | read sourceId url offset now =>
    show Kept _ (readSource deps s sourceId url offset now).1
    unfold readSource
    dsimp only
    split
    · split <;> exact h
    · split
      · exact h
      · split
        · exact h
        · split
          · exact h
          · exact h.ask _ _ _ _
  | answered number answer =>
    unfold Tools.step
    dsimp only
    split
    · next f hfind => exact h.resume (List.mem_of_find?_eq_some hfind) answer
    · exact h

/-! ## The size of an answer -/

/-- What follows the first of some texts with commas between them. -/
def joined : List Units → Units
  | [] => []
  | text :: rest => unit ',' :: commas (text :: rest)

theorem commas_cons (text : Units) (rest : List Units) : commas (text :: rest) = text ++ joined rest := by
  cases rest with
  | nil => exact (List.append_nil text).symm
  | cons t ts => rfl

/-- What is written of an answer in front of its text, with the names given. -/
def opening (content type text key : Units) : Units :=
  unit '\x7b' :: (stringify content ++ (wordText ":[\x7b" ++ (stringify type ++ (unit ':' :: (stringify text ++
    (unit ',' :: (stringify key ++ [unit ':', quoteUnit])))))))

/-- What is written behind it. -/
def closing (members : List (Units × Value Numeral)) : Units :=
  quoteUnit :: (wordText "\x7d]" ++ (joined ((stringifyMembers members).map Prod.snd) ++ [unit '\x7d']))

theorem stringifyText_answer (content type text key s : Units) (members : List (Units × Value Numeral)) :
    stringifyText (.obj ((content, .arr [.obj [(type, .str text), (key, .str s)]]) :: members)) =
      opening content type text key ++ ((codePoints s).flatMap JsonParse.stringifyPoint ++ closing members) := by
  have hbrackets : wordText ":[\x7b" = [unit ':', unit '[', unit '\x7b'] := by decide
  have hclosed : wordText "\x7d]" = [unit '\x7d', unit ']'] := by decide
  rw [opening, closing, hbrackets, hclosed]
  rw [stringifyText, stringifyMembers, List.map_cons, commas_cons, stringifyText, stringifyItems, stringifyText, stringifyMembers,
    stringifyMembers, stringifyMembers, stringifyItems, stringifyText, stringifyText, List.map_cons, List.map_cons, List.map_nil,
    commas, commas_cons, joined, commas, show stringify s = quoteUnit :: (_ ++ [quoteUnit]) from rfl]
  simp only [List.cons_append, List.append_assoc, List.nil_append]

/-- An answer takes the bytes of its text, and as many as the others with its members. -/
theorem bytes_eq (r : McpToolResult) : ∃ members, r.bytes =
    utf8Bytes (opening (wordText "content") (wordText "type") (wordText "text") (wordText "text")) +
      (bodyBytes r.content + utf8Bytes (closing members)) ∧ members =
        (r.structuredContent.map fun v => (wordText "structuredContent", v)).toList ++
          if r.isError then [(wordText "isError", .bool true)] else [] := by
  refine ⟨_, ?_, rfl⟩
  have hopening : paired (opening (wordText "content") (wordText "type") (wordText "text") (wordText "text")) = true := by
    decide
  rw [McpToolResult.bytes, McpToolResult.value, stringifyText_answer, utf8Bytes_append hopening,
    utf8Bytes_append (paired_body r.content), bodyBytes]

theorem bodyBytes_split {u : UInt16} (h : u.toNat < 0x80) (a b : Units) :
    bodyBytes (a ++ u :: b) = bodyBytes (a ++ [u]) + bodyBytes b := by
  rw [bodyBytes, body_split h, utf8Bytes_append (paired_body _)]
  rfl

/-- A window takes its own bytes beyond the answer without it. -/
theorem bytes_pageAnswer (id : Units) (document : ReadDocument Told) (start stop : Nat) (window : Units) :
    (pageAnswer id document start stop window).bytes = (pageAnswer id document start stop []).bytes + bodyBytes window := by
  obtain ⟨members, hbytes, hmembers⟩ := bytes_eq (pageAnswer id document start stop window)
  obtain ⟨members', hbytes', hmembers'⟩ := bytes_eq (pageAnswer id document start stop [])
  have hsame : members = members' := hmembers.trans hmembers'.symm
  have hcontent : bodyBytes (pageAnswer id document start stop window).content =
      bodyBytes (pageAnswer id document start stop []).content + bodyBytes window :=
    bodyBytes_split (by decide) _ _
  rw [hbytes, hbytes', hsame, hcontent]
  omega

/-! ## One window -/

section
variable (text : Units) (start : Nat) (policy : ReadPolicy)

theorem encodedPrefix_length (bytes : Int) (h : start ≤ text.length) :
    start + (encodedPrefix (text.drop start) bytes).length ≤ text.length := by
  have hlength := (encodedPrefix_isPrefix (text.drop start) bytes).length_le
  rw [List.length_drop] at hlength
  omega

theorem slice_encodedPrefix (bytes : Int) :
    slice text start (start + (encodedPrefix (text.drop start) bytes).length) = encodedPrefix (text.drop start) bytes := by
  rw [slice, Nat.add_sub_cancel_left]
  exact (List.prefix_iff_eq_take.mp (encodedPrefix_isPrefix _ _)).symm

/-- The window ends in the text, and the answer fits or the window is empty. -/
theorem windowEnd_fits (render : Nat → McpToolResult) (h : start ≤ text.length) (budget : Int) :
    start ≤ windowEnd text start policy render budget ∧ windowEnd text start policy render budget ≤ text.length ∧
      (((render (windowEnd text start policy render budget)).bytes : Int) ≤ policy.toolResultBytes ∨
        windowEnd text start policy render budget = start) := by
  induction budget using windowEnd.induct text start policy render with
  | case1 budget stop excess hend =>
    rw [windowEnd, if_pos hend]
    refine ⟨Nat.le_add_right _ _, encodedPrefix_length text start _ h, ?_⟩
    rcases hend with hexcess | hempty
    · have hfits : ((render stop).bytes : Int) - policy.toolResultBytes ≤ 0 := hexcess
      exact Or.inl (Int.le_of_sub_nonpos hfits)
    · exact Or.inr (by rw [hempty]; rfl)
  | case2 budget stop excess hend ih =>
    rw [windowEnd, if_neg hend]
    exact ih

/-- With room for its first character beside what stands around it, a window is not empty. -/
theorem windowEnd_moves {render : Nat → McpToolResult} {base : Nat → Nat}
    (hbytes : ∀ stop, (render stop).bytes = base stop + bodyBytes (slice text start stop)) (hstart : start < text.length)
    (hbase : ∀ stop, start < stop → stop ≤ text.length →
      (base stop + bodyBytes (firstChar (text.drop start)) : Int) ≤ policy.toolResultBytes)
    {budget : Int} (h : (encodedBytes (firstChar (text.drop start)) : Int) ≤ budget) :
    start < windowEnd text start policy render budget := by
  induction budget using windowEnd.induct text start policy render with
  | case1 budget stop excess hend =>
    rw [windowEnd, if_pos hend]
    have hne : encodedPrefix (text.drop start) (max 2 budget) ≠ [] :=
      encodedPrefix_ne_nil (fun hnil => by rw [List.drop_eq_nil_iff] at hnil; omega) (Int.le_trans h (Int.le_max_right _ _))
    have hpos := List.length_pos_of_ne_nil hne
    omega
  | case2 budget stop excess hend ih =>
    rw [windowEnd, if_neg hend]
    refine ih ?_
    have hmax : max 2 budget = budget := by
      rw [encodedBytes_eq] at h
      omega
    have hfits := encodedPrefix_fits (text.drop start) (Int.le_max_left 2 budget)
    have hlength : 0 < (encodedPrefix (text.drop start) (max 2 budget)).length :=
      Nat.pos_of_ne_zero (not_or.mp hend).2
    have hroom := hbase stop (Nat.lt_add_of_pos_right hlength) (encodedPrefix_length text start _ (Nat.le_of_lt hstart))
    have hanswer := hbytes stop
    rw [slice_encodedPrefix] at hanswer
    rw [encodedBytes_eq] at h hfits ⊢
    rw [hmax] at hfits hanswer
    have hexcess : excess = ((render stop).bytes : Int) - policy.toolResultBytes := rfl
    omega

end

/-! ## Reading on -/

section
variable (deps : Deps) (id : Units) (document : ReadDocument Told)

/-- What stands around a window leaves room for its first character. -/
def HeaderRoom : Prop := ∀ start stop, start < stop → stop ≤ document.text.length →
  (encodedBytes (firstChar (document.text.drop start)) : Int) ≤ deps.readWindowBytes deps.policy ∧
    ((pageAnswer id document start stop []).bytes + bodyBytes (firstChar (document.text.drop start)) : Int) ≤
      deps.policy.toolResultBytes

/-- The answer at an offset is that of a window which fits, or is empty. -/
theorem pageWindow_fits (offset : Nat) : ∃ stop, pageWindow deps id document offset =
    renderPage id document (min offset document.text.length) stop ∧ min offset document.text.length ≤ stop ∧
      stop ≤ document.text.length ∧
      (((pageWindow deps id document offset).bytes : Int) ≤ deps.policy.toolResultBytes ∨
        stop = min offset document.text.length) := by
  obtain ⟨hstart, hstop, hfits⟩ := windowEnd_fits document.text (min offset document.text.length) deps.policy
    (renderPage id document (min offset document.text.length)) (Nat.min_le_right _ _) (deps.readWindowBytes deps.policy)
  exact ⟨_, rfl, hstart, hstop, hfits⟩

/-- Windows of a text from an offset to its end, each beginning where the one before ends. -/
structure ReadFrom (text : Units) (start : Nat) (windows : List (Nat × Nat)) : Prop where
  begins : windows.head?.map Prod.fst = some start
  next : windows.IsChain fun v w => v.2 = w.1
  whole : (windows.map fun w => slice text w.1 w.2).flatten = text.drop start
  moves : start < text.length → ∀ w ∈ windows, w.1 < w.2

variable {id document}

/-- A window that is not the last is followed by the others. -/
theorem ReadFrom.cons {text : Units} {start stop : Nat} {rest : List (Nat × Nat)} (h : ReadFrom text stop rest)
    (hlt : start < stop) (hstop : stop < text.length) : ReadFrom text start ((start, stop) :: rest) where
  begins := rfl
  next := by
    have hnext := h.next
    have hbegins := h.begins
    cases rest with
    | nil => exact .singleton _
    | cons w rest => exact .cons_cons (Option.some.inj hbegins).symm hnext
  whole := by
    rw [List.map_cons, List.flatten_cons, h.whole, slice]
    have hsplit := List.take_append_drop (stop - start) (text.drop start)
    rw [List.drop_drop, Nat.add_sub_cancel' (Nat.le_of_lt hlt)] at hsplit
    exact hsplit
  moves := by
    intro _ w hw
    rcases List.mem_cons.mp hw with rfl | hw
    · exact hlt
    · exact h.moves hstop w hw

/-- From an offset on, the windows that are announced are the rest of the text. -/
theorem follow_whole (hroom : HeaderRoom deps id document) {fuel start : Nat} (hstart : start ≤ document.text.length)
    (hfuel : document.text.length - start < fuel) : ∃ windows, follow deps id document fuel start = some windows ∧
      ReadFrom document.text start windows ∧
      ∀ w ∈ windows, pageWindow deps id document w.1 = renderPage id document w.1 w.2 := by
  induction fuel generalizing start with
  | zero => exact absurd hfuel (Nat.not_lt_zero _)
  | succ fuel ih =>
    have hmin : min start document.text.length = start := Nat.min_eq_left hstart
    obtain ⟨hle, hstop, -⟩ := windowEnd_fits document.text start deps.policy (renderPage id document start) hstart
      (deps.readWindowBytes deps.policy)
    have hanswer : pageWindow deps id document start = renderPage id document start
        (windowEnd document.text start deps.policy (renderPage id document start) (deps.readWindowBytes deps.policy)) := by
      rw [pageWindow, hmin]
      rfl
    have hmoves : start < document.text.length → start < windowEnd document.text start deps.policy
        (renderPage id document start) (deps.readWindowBytes deps.policy) := fun hlt =>
      windowEnd_moves document.text start deps.policy (fun stop => bytes_pageAnswer id document start stop _) hlt
        (fun stop hlt hstop => (hroom start stop hlt hstop).2)
        (hroom start document.text.length hlt (Nat.le_refl _)).1
    rw [follow, hmin]
    generalize windowEnd document.text start deps.policy (renderPage id document start)
      (deps.readWindowBytes deps.policy) = stop at hle hstop hanswer hmoves ⊢
    by_cases hmore : stop < document.text.length
    · have hlt := hmoves (Nat.lt_of_le_of_lt hle hmore)
      obtain ⟨windows, hfollow, hread, hanswers⟩ := ih hstop (by omega)
      refine ⟨(start, stop) :: windows, by rw [if_pos hmore, hfollow]; rfl, hread.cons hlt hmore, ?_⟩
      intro w hw
      rcases List.mem_cons.mp hw with rfl | hw
      · exact hanswer
      · exact hanswers w hw
    · have hend : stop = document.text.length := Nat.le_antisymm hstop (Nat.le_of_not_lt hmore)
      refine ⟨[(start, stop)], if_neg hmore, ⟨rfl, List.IsChain.singleton _, ?_, ?_⟩, ?_⟩
      · rw [List.map_singleton, List.flatten_singleton, slice, hend]
        exact List.take_of_length_le (by rw [List.length_drop])
      · intro hlt w hw
        rw [List.mem_singleton.mp hw]
        exact hmoves hlt
      · intro w hw
        rw [List.mem_singleton.mp hw]
        exact hanswer

end

/-- A desk without sources, and a page of one letter. -/
def oneLetter : Deps × ReadDocument Told :=
  (⟨none, none, fun _ => none, fun _ => none, ⟨1, 1, 1, 1⟩, ⟨2000⟩, fun _ => 976⟩,
    ⟨wordText "a", ⟨wordText "https://a.b", [], none, none, ⟨none, none⟩, none⟩⟩)

end Desk.Sources.Tools
