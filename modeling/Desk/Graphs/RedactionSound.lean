import Desk.Graphs.Redaction
import Desk.Service.PathTextSound

/-!
# A shown answer is the answer, redacted

What is shown is the answer's tree with some of its strings replaced (`shown_tree`), and
no path that the redaction was given stands in a string of it (`shown_hides`).
-/

namespace Desk

namespace GraphAnswer

open JsonScan PathText

/-! ## The shown tree -/

/-- The name a member's value is visited under. -/
def keyOf (k : Kind) (key name : String) : String :=
  match k with
  | .array => key
  | .object => name

namespace Redaction

mutual

/-- The tree with its strings redacted. -/
def shown (red : Redaction) (key : String) : Tree → Tree
  | .leaf raw => .leaf raw
  | .str raw => .str (red.shownString key raw)
  | .node k members => .node k (shownMembers red k key members)

def shownMembers (red : Redaction) (k : Kind) (key : String) : List (String × Tree) → List (String × Tree)
  | [] => []
  | (name, v) :: rest => (name, shown red (keyOf k key name) v) :: shownMembers red k key rest

end

variable (red : Redaction)

theorem shownMembers_eq (k : Kind) (key : String) (members : List (String × Tree)) :
    red.shownMembers k key members = members.map fun m => (m.1, red.shown (keyOf k key m.1) m.2) := by
  induction members with
  | nil => rfl
  | cons m rest ih => rw [shownMembers, ih, List.map_cons]

theorem shownString_literal {raw : Bytes} (h : IsLiteral raw) (key : String) : IsLiteral (red.shownString key raw) := by
  unfold shownString
  split
  · exact h
  · split
    · exact h
    · exact isLiteral_encodeString _

/-! ## Containers that are written anew -/

/-- A member as it is written anew. -/
def freshLead (k : Kind) (name : String) : Bytes :=
  match k with
  | .array => []
  | .object => encodeString name ++ [byte ':']

theorem freshLead_wf {k : Kind} {lead : Bytes} {name : String} (h : Lead k lead name) : Lead k (freshLead k name) name := by
  cases h with
  | array => exact .array rfl
  | object =>
    have hlead : Lead .object ([] ++ (encodeString name ++ ([] ++ byte ':' :: []))) name :=
      .object rfl (isLiteral_encodeString name) (unquote_encodeString name) rfl rfl
    exact hlead

def freshPiece (k : Kind) (name : String) (raw : Bytes) : JsonScan.Piece := ⟨freshLead k name, name, raw, []⟩

theorem joined_eq {k : Kind} {members : List (String × Bytes)} (hne : members ≠ []) :
    joined k members ++ [k.closing] = JsonScan.piecesText k (members.map fun m => freshPiece k m.1 m.2) := by
  have hitem : ∀ m : String × Bytes, joined.item k m = freshLead k m.1 ++ m.2 := by
    intro m
    cases k with
    | array => rfl
    | object =>
      show encodeString m.1 ++ byte ':' :: m.2 = (encodeString m.1 ++ [byte ':']) ++ m.2
      rw [List.append_assoc]
      rfl
  induction members with
  | nil => exact absurd rfl hne
  | cons m rest ih =>
    cases rest with
    | nil =>
      rw [joined, hitem]
      show (freshLead k m.1 ++ m.2) ++ [k.closing] = freshLead k m.1 ++ (m.2 ++ ([] ++ [k.closing]))
      rw [List.append_assoc, List.nil_append]
    | cons n rest =>
      rw [joined, hitem]
      · show (freshLead k m.1 ++ m.2 ++ byte ',' :: joined k (n :: rest)) ++ [k.closing] =
          freshLead k m.1 ++ (m.2 ++ ([] ++ byte ',' :: JsonScan.piecesText k ((n :: rest).map fun m => freshPiece k m.1 m.2)))
        rw [← ih (List.cons_ne_nil n rest)]
        simp only [List.append_assoc, List.cons_append, List.nil_append]
      · exact List.cons_ne_nil n rest

/-- A container is kept as it is where no member changed, and written anew with the members as they are shown. -/
theorem text_rebuilt {n : Nat} {k : Kind} {ps : List (JsonScan.Piece × Tree)} (hne : ps ≠ []) (hwf : ∀ p ∈ ps, p.1.Wf k)
    {next : JsonScan.Piece × Tree → Tree} {shown : String × Bytes → Bytes} (hvalue : ∀ p ∈ ps, IsValue p.1.raw)
    (hshown : ∀ p ∈ ps, Text n (next p) (shown p.1.member)) :
    Text (n + 1) (.node k (ps.map fun p => (p.1.name, next p)))
      (rebuilt k (k.opening :: JsonScan.piecesText k (ps.map Prod.fst)) ((ps.map Prod.fst).map JsonScan.Piece.member) shown) := by
  have htrim : ∀ p ∈ ps, trimSpace p.1.raw = p.1.raw := fun p hp => trim_value (hvalue p hp)
  unfold rebuilt
  split
  · rename_i hsame
    have hsame : ∀ p ∈ ps, shown p.1.member = p.1.raw := by
      intro p hp
      have := List.all_eq_true.mp hsame p.1.member (List.mem_map_of_mem (List.mem_map_of_mem hp))
      rw [eq_of_beq this]
      exact htrim p hp
    have htext := @Text.node n k (ps.map fun p => (p.1, next p)) (fun hnil => hne (List.map_eq_nil_iff.mp hnil))
      (fun q hq => by
        obtain ⟨p, hp, rfl⟩ := List.mem_map.mp hq
        exact hwf p hp)
      (fun q hq => by
        obtain ⟨p, hp, rfl⟩ := List.mem_map.mp hq
        have := hshown p hp
        rw [hsame p hp] at this
        exact this)
    simpa [List.map_map, Function.comp_def] using htext
  · have htext := @Text.node n k (ps.map fun p => (freshPiece k p.1.name (shown p.1.member), next p))
      (fun hnil => hne (List.map_eq_nil_iff.mp hnil))
      (fun q hq => by
        obtain ⟨p, hp, rfl⟩ := List.mem_map.mp hq
        exact ⟨freshLead_wf (hwf p hp).lead, rfl⟩)
      (fun q hq => by
        obtain ⟨p, hp, rfl⟩ := List.mem_map.mp hq
        exact hshown p hp)
    have hmembers : ((ps.map Prod.fst).map JsonScan.Piece.member).map (fun m => (m.1, if k = .array ∧ shown m = trimSpace m.2 then m.2 else shown m)) =
        ps.map fun p => (p.1.name, shown p.1.member) := by
      rw [List.map_map, List.map_map]
      refine List.map_congr_left fun p hp => ?_
      show (p.1.name, if k = .array ∧ shown p.1.member = trimSpace p.1.raw then p.1.raw else shown p.1.member) = _
      rw [htrim p hp]
      split
      · rename_i hkept
        rw [hkept.2]
      · rfl
    rw [joinJSON, hmembers, joined_eq (fun hnil => hne (List.map_eq_nil_iff.mp hnil))]
    simpa [List.map_map, Function.comp_def, freshPiece] using htext

theorem rebuilt_kept {k : Kind} {raw : Bytes} {members : List (String × Bytes)} {shown : String × Bytes → Bytes}
    (h : ∀ m ∈ members, shown m = trimSpace m.2) : rebuilt k raw members shown = raw := by
  unfold rebuilt
  rw [if_pos]
  exact List.all_eq_true.mpr fun m hm => beq_iff_eq.mpr (h m hm)

/-- A container is visited member by member. -/
theorem shownGraphValue_node {k : Kind} {fuel : Nat} {key : String} {body : Bytes} {members : List (String × Bytes)}
    (hvalue : IsValue (k.opening :: body)) (hsplit : JsonScan.split k (k.opening :: body) = some members) :
    red.shownGraphValue (fuel + 1) key (k.opening :: body) =
      rebuilt k (k.opening :: body) members fun m => red.shownGraphValue fuel (keyOf k key m.1) m.2 := by
  have htrim : trimSpace (k.opening :: body) = k.opening :: body := trim_value hvalue
  rw [shownGraphValue, htrim]
  dsimp only [List.head?_cons]
  cases k with
  | array =>
    rw [if_neg (by decide), if_pos rfl, unmarshalItems, if_pos hvalue.1, hsplit]
    rfl
  | object =>
    rw [if_neg (by decide), if_neg (by decide), if_pos rfl, hsplit]
    rfl

/-- A value is shown as its shown tree, and as it is where that is the tree itself. -/
theorem shownGraphValue_text {n : Nat} {t : Tree} {raw : Bytes} (h : Text n t raw) (hn : n ≤ Json.maxNesting) {fuel : Nat}
    (hfuel : raw.length < fuel) (key : String) :
    Text n (red.shown key t) (red.shownGraphValue fuel key raw) ∧
      (red.shown key t = t → red.shownGraphValue fuel key raw = raw) := by
  induction h generalizing fuel key with
  | @leaf n raw h hc =>
    obtain ⟨fuel, rfl⟩ : ∃ m, fuel = m + 1 := ⟨fuel - 1, by omega⟩
    have htrim : trimSpace raw = raw := trim_value h
    have hraw : red.shownGraphValue (fuel + 1) key raw = raw := by
      obtain ⟨c, body, rfl⟩ := List.exists_cons_of_ne_nil (ne_nil_of_read h.1)
      obtain ⟨h₁, h₂, h₃⟩ := hc c rfl
      rw [shownGraphValue, htrim]
      dsimp only [List.head?_cons]
      rw [if_neg h₁, if_neg h₂, if_neg h₃]
    rw [hraw]
    exact ⟨.leaf h hc, fun _ => rfl⟩
  | @str n raw h =>
    obtain ⟨fuel, rfl⟩ : ∃ m, fuel = m + 1 := ⟨fuel - 1, by omega⟩
    have htrim : trimSpace raw = raw := trim_value h.1
    have hraw : red.shownGraphValue (fuel + 1) key raw = red.shownString key raw := by
      rw [shownGraphValue, htrim, h.2]
      rfl
    rw [hraw]
    refine ⟨.str (red.shownString_literal h key), fun hsame => ?_⟩
    rw [shown] at hsame
    exact Tree.str.inj hsame
  | @empty n k s hs =>
    obtain ⟨fuel, rfl⟩ : ∃ m, fuel = m + 1 := ⟨fuel - 1, by omega⟩
    have hvalue : IsValue (k.opening :: (s ++ [k.closing])) := ((Text.empty (n := n) hs).valid hn).1
    rw [red.shownGraphValue_node hvalue (split_empty k hs), rebuilt_kept fun m hm => (List.not_mem_nil hm).elim]
    exact ⟨.empty hs, fun _ => rfl⟩
  | @node n k ps hne hwf h ih =>
    obtain ⟨fuel, rfl⟩ : ∃ m, fuel = m + 1 := ⟨fuel - 1, by omega⟩
    have hvalues : ∀ p ∈ ps, IsValue p.1.raw := fun p hp => ((h p hp).valid (by omega)).1
    have hall : ∀ {P : JsonScan.Piece → Prop}, (∀ q ∈ ps, P q.1) → ∀ p ∈ ps.map Prod.fst, P p := by
      intro P hP p hp
      obtain ⟨q, hq, rfl⟩ := List.mem_map.mp hp
      exact hP q hq
    have hsplit := split_pieces (fun hnil => hne (List.map_eq_nil_iff.mp hnil)) (hall hwf) (hall hvalues)
    have hmember : ∀ p ∈ ps, p.1.raw.length < fuel := by
      intro p hp
      have := raw_shorter (k := k) (List.mem_map_of_mem (f := Prod.fst) hp)
      omega
    have hnode := Text.node hne hwf h
    rw [red.shownGraphValue_node (hnode.valid hn).1 hsplit, shown, shownMembers_eq, List.map_map]
    refine ⟨text_rebuilt hne hwf hvalues fun p hp => (ih p hp (by omega) (hmember p hp) _).1, fun hsame => ?_⟩
    refine rebuilt_kept fun m hm => ?_
    obtain ⟨p, hp, rfl⟩ := List.mem_map.mp hm
    obtain ⟨q, hq, rfl⟩ := List.mem_map.mp hp
    have htree : red.shown (keyOf k key q.1.name) q.2 = q.2 := by
      have hlist := (Tree.node.inj hsame).2
      have := List.map_inj_left.mp hlist q hq
      exact (Prod.mk.inj this).2
    show red.shownGraphValue fuel (keyOf k key q.1.name) q.1.raw = trim asciiSpace q.1.raw
    rw [trim_value (hvalues q hq)]
    exact (ih q hq (by omega) (hmember q hq) _).2 htree

end Redaction

/-! ## The answer -/

theorem length_trim_le (raw : Bytes) : (Redaction.trimSpace raw).length ≤ raw.length := by
  have hsub : (trim asciiSpace raw).Sublist raw :=
    (List.rdropWhile_prefix asciiSpace _).sublist.trans (List.dropWhile_sublist asciiSpace)
  exact hsub.length_le

theorem Redaction.shown_text (red : Redaction) {answer : Bytes} (h : IsValue (trimSpace answer)) :
    ∃ t, Text Json.maxNesting t (trimSpace answer) ∧
      Text Json.maxNesting (red.shown "" t) (red.shownGraphValue (answer.length + 1) "" answer) ∧
      (red.shown "" t = t → red.shownGraphValue (answer.length + 1) "" answer = trimSpace answer) := by
  obtain ⟨t, ht⟩ := text_of_isValue h
  have htrim : trimSpace (trimSpace answer) = trimSpace answer := trim_value h
  have hsame : red.shownGraphValue (answer.length + 1) "" answer = red.shownGraphValue (answer.length + 1) "" (trimSpace answer) := by
    rw [shownGraphValue, shownGraphValue, htrim]
  have hfuel : (trimSpace answer).length < answer.length + 1 := Nat.lt_succ_of_le (length_trim_le answer)
  rw [hsame]
  exact ⟨t, ht, red.shownGraphValue_text ht (Nat.le_refl _) hfuel ""⟩

/-- What is shown is JSON with the answer's own tree, its strings redacted, and the answer itself where none changes. -/
theorem shown_tree (rehearsalText : List PathSpan → String → String) (inRange : Bytes → Bool) (host : Host)
    (config : Option Declared) (answer : Bytes) (h : IsValue (Redaction.trimSpace answer)) :
    ∃ t, treeOf ((Redaction.trimSpace answer).length + 1) (Redaction.trimSpace answer) = some t ∧
      IsValue (shownGraphAnswer rehearsalText inRange host config answer) ∧
      treeOf ((shownGraphAnswer rehearsalText inRange host config answer).length + 1)
          (shownGraphAnswer rehearsalText inRange host config answer) =
        some ((answerRedaction rehearsalText inRange host config answer).shown "" t) ∧
      ((answerRedaction rehearsalText inRange host config answer).shown "" t = t →
        shownGraphAnswer rehearsalText inRange host config answer = Redaction.trimSpace answer) := by
  obtain ⟨t, ht, hshown, hkept⟩ := (answerRedaction rehearsalText inRange host config answer).shown_text h
  exact ⟨t, treeOf_text ht (Nat.le_refl _) (Nat.lt_succ_self _), (hshown.valid (Nat.le_refl _)).1,
    treeOf_text hshown (Nat.le_refl _) (Nat.lt_succ_self _), hkept⟩

/-! ## The paths that are hidden -/

/-- A member that gives a path from a root, under the name it is visited with; of members with one name the last. -/
inductive Gives : String → Tree → String → Prop
  | str {key p : String} {raw : Bytes} (h : unquote raw = some p) (hkey : key ∈ graphPathMembers)
      (hroot : startsFromARoot p = true) : Gives key (.str raw) p
  | item {key name p : String} {v : Tree} {members : List (String × Tree)} (hm : (name, v) ∈ members) (h : Gives key v p) :
      Gives key (.node .array members) p
  | member {key name p : String} {v : Tree} {before after : List (String × Tree)} (hlast : ∀ m ∈ after, m.1 ≠ name)
      (h : Gives name v p) : Gives key (.node .object (before ++ (name, v) :: after)) p

/-- A string value at any depth. -/
inductive HasString : Tree → String → Prop
  | str {text : String} {raw : Bytes} (h : unquote raw = some text) : HasString (.str raw) text
  | node {k : Kind} {name text : String} {v : Tree} {members : List (String × Tree)} (hm : (name, v) ∈ members)
      (h : HasString v text) : HasString (.node k members) text

theorem mem_spansOf {p : String} (h : startsFromARoot p = true) : ⟨p, hidden, false⟩ ∈ spansOf p := by
  unfold spansOf
  rw [if_pos h]
  exact List.mem_cons_self

theorem mem_collectItems {key name : String} {v : Tree} {span : PathSpan} {members : List (String × Tree)}
    (hm : (name, v) ∈ members) (h : span ∈ collect key v) : span ∈ collectItems key members := by
  induction members with
  | nil => cases hm
  | cons m rest ih =>
    rw [collectItems]
    rcases List.mem_cons.mp hm with rfl | hrest
    · exact List.mem_append_left _ h
    · exact List.mem_append_right _ (ih hrest)

theorem mem_collectMembers {name : String} {v : Tree} {span : PathSpan} {before after : List (String × Tree)}
    (hlast : ∀ m ∈ after, m.1 ≠ name) (h : span ∈ collect name v) :
    span ∈ collectMembers (before ++ (name, v) :: after) := by
  induction before with
  | nil =>
    rw [List.nil_append, collectMembers, if_neg]
    · exact List.mem_append_left _ h
    · intro hany
      obtain ⟨m, hm, heq⟩ := List.any_eq_true.mp hany
      exact hlast m hm (eq_of_beq heq)
  | cons m before ih =>
    rw [List.cons_append, collectMembers]
    exact List.mem_append_right _ ih

/-- A path that a member gives is collected. -/
theorem mem_collect {key p : String} {t : Tree} (h : Gives key t p) : ⟨p, hidden, false⟩ ∈ collect key t := by
  induction h with
  | str h hkey hroot =>
    simp only [collect, h, if_pos hkey]
    exact mem_spansOf hroot
  | item hm _ ih =>
    rw [collect]
    exact mem_collectItems hm ih
  | member hlast _ ih =>
    rw [collect]
    exact mem_collectMembers hlast ih

/-! ### Every span starts from a root -/

/-- The root of a path is printed as it is. -/
theorem startsFromARoot_displayedPath {p : String} (h : startsFromARoot p = true) : startsFromARoot (displayedPath p) = true := by
  have hlist : (displayedPath p).toList = p.toList.map displayedRune := String.toList_ofList
  simp only [startsFromARoot, Bool.or_eq_true] at h ⊢
  rcases h with (h | h) | h
  · left; left
    obtain ⟨rest, hrest⟩ := List.isPrefixOf_iff_prefix.mp h
    refine List.isPrefixOf_iff_prefix.mpr ⟨rest.map displayedRune, ?_⟩
    rw [hlist, ← hrest, List.map_append]
    rfl
  · left; right
    obtain ⟨rest, hrest⟩ := List.isPrefixOf_iff_prefix.mp h
    refine List.isPrefixOf_iff_prefix.mpr ⟨rest.map displayedRune, ?_⟩
    rw [hlist, ← hrest, List.map_append]
    rfl
  · right
    unfold drivePath at h
    split at h
    · rename_i c d rest hp
      rw [Bool.and_eq_true, Bool.or_eq_true, beq_iff_eq, beq_iff_eq] at h
      obtain ⟨hc, hd⟩ := h
      have hfixed : displayedRune c = c := displayed_ascii (isAlpha_ascii hc).1 (isAlpha_ascii hc).2
      unfold drivePath
      rw [hlist, hp, List.map_cons, List.map_cons, List.map_cons, hfixed]
      rcases hd with rfl | rfl
      · show (c.isAlpha && true) = true
        rw [hc]
        rfl
      · show (c.isAlpha && true) = true
        rw [hc]
        rfl
    · cases h

theorem root_of_spansOf {p : String} {span : PathSpan} (h : span ∈ spansOf p) : startsFromARoot span.value = true := by
  unfold spansOf at h
  split at h
  · rename_i hroot
    rcases List.mem_cons.mp h with rfl | h
    · exact hroot
    · split at h
      · cases h
      · cases List.mem_singleton.mp h
        exact startsFromARoot_displayedPath hroot
  · cases h

mutual

theorem root_of_collect (key : String) (t : Tree) {span : PathSpan} (h : span ∈ collect key t) : startsFromARoot span.value = true := by
  cases t with
  | leaf => cases h
  | str raw =>
    rw [collect] at h
    split at h
    · split at h
      · exact root_of_spansOf h
      · cases h
    · cases h
  | node k members =>
    cases k with
    | array => exact root_of_collectItems key members (by rwa [collect] at h)
    | object => exact root_of_collectMembers members (by rwa [collect] at h)

theorem root_of_collectItems (key : String) (members : List (String × Tree)) {span : PathSpan}
    (h : span ∈ collectItems key members) : startsFromARoot span.value = true := by
  cases members with
  | nil => cases h
  | cons m rest =>
    rw [collectItems] at h
    rcases List.mem_append.mp h with h | h
    · exact root_of_collect key m.2 h
    · exact root_of_collectItems key rest h

theorem root_of_collectMembers (members : List (String × Tree)) {span : PathSpan} (h : span ∈ collectMembers members) :
    startsFromARoot span.value = true := by
  cases members with
  | nil => cases h
  | cons m rest =>
    rw [collectMembers] at h
    rcases List.mem_append.mp h with h | h
    · split at h
      · cases h
      · exact root_of_collect m.1 m.2 h
    · exact root_of_collectMembers rest h

end

theorem root_of_answerRedaction {rehearsalText : List PathSpan → String → String} {inRange : Bytes → Bool} {host : Host}
    {config : Option Declared} {answer : Bytes} {span : PathSpan}
    (h : span ∈ (answerRedaction rehearsalText inRange host config answer).spans) : startsFromARoot span.value = true := by
  have hcollected : ∀ span ∈ (answerRedaction rehearsalText inRange host none answer).spans,
      startsFromARoot span.value = true := by
    intro span h
    unfold answerRedaction at h
    split at h
    · exact root_of_collect _ _ h
    · cases h
  cases config with
  | none => exact hcollected span h
  | some declared =>
    rcases List.mem_append.mp h with h | h
    · rcases List.mem_append.mp h with h | h
      · exact hcollected span h
      · obtain ⟨p, _, h⟩ := List.mem_flatMap.mp h
        exact root_of_spansOf h
    · obtain ⟨g, _, h⟩ := List.mem_flatMap.mp h
      rcases List.mem_append.mp h with h | h <;> exact root_of_spansOf h

/-- The sign for what is hidden holds no path from a root. -/
theorem hidden_holds {p : String} (h : startsFromARoot p = true) : holds hidden p = false := by
  refine decide_eq_false fun hin => ?_
  have hcase : p.toList = [] ∨ p.toList = ['\u2026'] := by
    obtain ⟨pre, post, heq⟩ := hin
    have heq : pre ++ p.toList ++ post = ['\u2026'] := heq
    rcases hp : p.toList with - | ⟨c, rest⟩
    · exact Or.inl rfl
    · rw [hp] at heq
      have hlen := congrArg List.length heq
      simp only [List.length_append, List.length_cons, List.length_nil] at hlen
      obtain rfl : pre = [] := List.length_eq_zero_iff.mp (by omega)
      obtain rfl : rest = [] := List.length_eq_zero_iff.mp (by omega)
      obtain rfl : post = [] := List.length_eq_zero_iff.mp (by omega)
      exact Or.inr heq
  have hroot : ∀ l : List Char, l = [] ∨ l = ['\u2026'] → startsFromARoot (String.ofList l) = false := by
    rintro l (rfl | rfl) <;> rfl
  have := hroot p.toList hcase
  rw [String.ofList_toList, h] at this
  cases this

namespace Redaction

/-- The redaction leaves no span in a sentence that is a string of the tree. -/
def Clean (red : Redaction) (t : Tree) : Prop :=
  ∀ m, HasString t m → ∀ span ∈ red.spans, holds (red.text m) span.value = false

variable {red : Redaction}

theorem shownText_clean {span : PathSpan} (hspan : span ∈ red.spans) (hroot : startsFromARoot span.value = true)
    {text : String} (hclean : holds (red.text text) span.value = false) (key : String) : holds (red.shownText key text) span.value = false := by
  unfold shownText
  split
  · unfold shownPathMember
    split
    · dsimp only
      split
      · exact hclean
      · exact hidden_holds hroot
    · split
      · exact hidden_holds hroot
      · rename_i hsame
        rwa [not_not.mp hsame] at hclean
  · split
    · exact hclean
    · rename_i hnames
      push Not at hnames
      have hnone := List.any_eq_false.mp (Bool.eq_false_iff.mpr hnames.2.2) span hspan
      have hne : span.value ≠ "" := by
        rintro hnil
        rw [hnil] at hroot
        cases hroot
      rw [Bool.and_eq_true, not_and] at hnone
      exact Bool.eq_false_iff.mpr (hnone (bne_iff_ne.mpr hne))

theorem unquote_shownString {key text : String} {raw : Bytes} (h : unquote (red.shownString key raw) = some text) :
    ∃ old, unquote raw = some old ∧ text = red.shownText key old := by
  unfold shownString at h
  split at h
  · rename_i hnone
    rw [hnone] at h
    cases h
  · rename_i old hold
    split at h
    · rename_i hsame
      rw [hold] at h
      exact ⟨old, hold, (Option.some.inj h).symm.trans hsame.symm⟩
    · rw [unquote_encodeString] at h
      cases h
      exact ⟨old, hold, rfl⟩

/-- No string of a shown tree holds a span. -/
theorem shown_clean {span : PathSpan} (hspan : span ∈ red.spans) (hroot : startsFromARoot span.value = true)
    {key text : String} {t : Tree} (hclean : red.Clean t) (h : HasString (red.shown key t) text) : holds text span.value = false := by
  generalize hs : red.shown key t = s at h
  induction h generalizing key t with
  | str h =>
    cases t with
    | str raw =>
      cases hs
      obtain ⟨old, hold, rfl⟩ := unquote_shownString h
      exact shownText_clean hspan hroot (hclean old (.str hold) span hspan) key
    | leaf => cases hs
    | node => cases hs
  | node hm _ ih =>
    cases t with
    | node k members =>
      cases hs
      rw [shownMembers_eq] at hm
      obtain ⟨m, hmember, hm⟩ := List.mem_map.mp hm
      cases hm
      exact ih (fun text htext => hclean text (.node hmember htext)) rfl
    | leaf => cases hs
    | str => cases hs

end Redaction

/-- No path from a root that a member of the answer gives stands in a string of what is shown. -/
theorem shown_hides (rehearsalText : List PathSpan → String → String) (inRange : Bytes → Bool) (host : Host)
    (config : Option Declared) (answer : Bytes) {t : Tree} (ht : unmarshal inRange answer = some t)
    (hclean : (answerRedaction rehearsalText inRange host config answer).Clean t) :
    ∃ shown, treeOf ((shownGraphAnswer rehearsalText inRange host config answer).length + 1)
        (shownGraphAnswer rehearsalText inRange host config answer) = some shown ∧
      ∀ p text, Gives "" t p → HasString shown text → holds text p = false := by
  have hvalue : IsValue (trim JsonScan.isSpace answer) := by
    unfold unmarshal at ht
    dsimp only at ht
    split at ht
    · assumption
    · cases ht
  have htrim : Redaction.trimSpace answer = trim JsonScan.isSpace answer := trim_isValue hvalue
  obtain ⟨t', htext', hshown, _⟩ :=
    (answerRedaction rehearsalText inRange host config answer).shown_text (by rw [htrim]; exact hvalue)
  have htree := treeOf_text htext' (Nat.le_refl _) (Nat.lt_succ_self _)
  have hsame : t' = t := by
    unfold unmarshal at ht
    dsimp only at ht
    rw [if_pos hvalue, ← htrim, htree, Option.filter_some] at ht
    split at ht
    · exact Option.some.inj ht
    · cases ht
  subst hsame
  refine ⟨_, treeOf_text hshown (Nat.le_refl _) (Nat.lt_succ_self _), fun p text hp htext => ?_⟩
  have hspan : ⟨p, hidden, false⟩ ∈ (answerRedaction rehearsalText inRange host config answer).spans := by
    have hcollected := mem_collect hp
    unfold answerRedaction redactionFor
    rw [ht]
    cases config with
    | none => exact hcollected
    | some declared => exact List.mem_append_left _ (List.mem_append_left _ hcollected)
  exact Redaction.shown_clean hspan (root_of_answerRedaction hspan) hclean htext

/-! ## Sentences -/

/-- A path or a sentence, by the name it is visited with, at any depth. -/
inductive HasMessage : String → Tree → String → Prop
  | str {key text : String} {raw : Bytes} (hkey : key ∈ graphPathMembers ++ graphMessageMembers) (h : unquote raw = some text) :
      HasMessage key (.str raw) text
  | node {k : Kind} {key name text : String} {v : Tree} {members : List (String × Tree)} (hm : (name, v) ∈ members)
      (h : HasMessage (keyOf k key name) v text) : HasMessage key (.node k members) text

namespace Redaction

variable {red : Redaction}

theorem shownText_free (hfree : ∀ m, PathFree (red.text m).toList) {key : String}
    (hkey : key ∈ graphPathMembers ++ graphMessageMembers) (text : String) : PathFree (red.shownText key text).toList := by
  have hhidden : PathFree hidden.toList := (pathFree_iff _).mpr (by decide)
  unfold shownText
  split
  · unfold shownPathMember
    split
    · dsimp only
      split
      · exact hfree text
      · exact hhidden
    · split
      · exact hhidden
      · rename_i hsame
        rw [← not_not.mp hsame]
        exact hfree text
  · rename_i hpath
    have hmessage := (List.mem_append.mp hkey).resolve_left hpath
    rw [if_pos (Or.inl hmessage)]
    exact hfree text

theorem shown_free (hfree : ∀ m, PathFree (red.text m).toList) {key text : String} {t : Tree}
    (h : HasMessage key (red.shown key t) text) : PathFree text.toList := by
  generalize hs : red.shown key t = s at h
  induction h generalizing t with
  | str hkey h =>
    cases t with
    | str raw =>
      cases hs
      obtain ⟨old, _, rfl⟩ := unquote_shownString h
      exact shownText_free hfree hkey old
    | leaf => cases hs
    | node => cases hs
  | node hm _ ih =>
    cases t with
    | node k members =>
      cases hs
      rw [shownMembers_eq] at hm
      obtain ⟨m, _, hm⟩ := List.mem_map.mp hm
      cases hm
      exact ih rfl
    | leaf => cases hs
    | str => cases hs

end Redaction

/-- No path or sentence of an answer that no inputs came with has a path from a root where one may start. -/
theorem shown_messages_free (inRange : Bytes → Bool) (host : Host) (auditDir : String) (config : Option Declared) (answer : Bytes)
    (h : IsValue (Redaction.trimSpace answer)) :
    ∃ shown, treeOf ((shownGraphAnswer (sentence host auditDir) inRange host config answer).length + 1)
        (shownGraphAnswer (sentence host auditDir) inRange host config answer) = some shown ∧
      ∀ text, HasMessage "" shown text → PathFree text.toList := by
  obtain ⟨t, -, hshown, -⟩ := (answerRedaction (sentence host auditDir) inRange host config answer).shown_text h
  refine ⟨_, treeOf_text hshown (Nat.le_refl _) (Nat.lt_succ_self _), fun text htext => Redaction.shown_free (fun m => ?_) htext⟩
  cases config <;> exact withoutPathsUnder_free host _ auditDir

/-! ## An answer -/

/-- A path, and a sentence that names it. -/
def named : Bytes := bytesOf "\x7b\"path\":\"/a b\",\"note\":\"see /a b\"\x7d"

def nowhere : Host := ⟨"", "", "", "", "", "", "", fun _ => none⟩

def namedTree : Tree := .node .object [("path", .str (bytesOf "\"/a b\"")), ("note", .str (bytesOf "\"see /a b\""))]

theorem isValue_named : IsValue (Redaction.trimSpace named) := by decide +kernel

theorem shown_tree_named : IsValue (shownGraphAnswer (sentence nowhere "") (fun _ => true) nowhere none named) := by
  obtain ⟨_, _, hvalue, _⟩ := shown_tree (sentence nowhere "") (fun _ => true) nowhere none named isValue_named
  exact hvalue

theorem shown_messages_free_named :
    ∃ shown, treeOf ((shownGraphAnswer (sentence nowhere "") (fun _ => true) nowhere none named).length + 1)
        (shownGraphAnswer (sentence nowhere "") (fun _ => true) nowhere none named) = some shown ∧
      ∀ text, HasMessage "" shown text → PathFree text.toList :=
  shown_messages_free (fun _ => true) nowhere "" none named isValue_named

theorem named_clean : (answerRedaction (sentence nowhere "") (fun _ => true) nowhere none named).Clean namedTree := by
  have hclean : ∀ m ∈ ["/a b", "see /a b"], ∀ span ∈ (answerRedaction (sentence nowhere "") (fun _ => true) nowhere none named).spans,
      holds ((answerRedaction (sentence nowhere "") (fun _ => true) nowhere none named).text m) span.value = false := by
    decide +kernel
  intro m h
  refine hclean m ?_
  cases h with
  | node hm h =>
    simp only [List.mem_cons, List.not_mem_nil, or_false, Prod.mk.injEq] at hm
    obtain ⟨rfl, rfl⟩ | ⟨rfl, rfl⟩ := hm
    · cases h with
      | str h => exact Option.some.inj (h.symm.trans (show _ = some "/a b" by decide +kernel)) ▸ List.mem_cons_self
    · cases h with
      | str h => exact Option.some.inj (h.symm.trans (show _ = some "see /a b" by decide +kernel)) ▸ by simp

theorem shown_hides_named :
    ∃ shown, treeOf ((shownGraphAnswer (sentence nowhere "") (fun _ => true) nowhere none named).length + 1)
        (shownGraphAnswer (sentence nowhere "") (fun _ => true) nowhere none named) = some shown ∧
      ∀ p text, Gives "" namedTree p → HasString shown text → holds text p = false :=
  shown_hides (sentence nowhere "") (fun _ => true) nowhere none named rfl named_clean

end GraphAnswer

end Desk
