import Mathlib.Data.Fintype.Card
import Mathlib.Data.Set.Finite.List
import Mathlib.Data.List.Perm.Subperm
import Mathlib.Logic.Function.Basic
import Mathlib.Logic.Relation
import Mathlib.Order.Bounds.Basic
import Mathlib.Order.WellFounded

/-!
# Layers of a directed graph

Kahn's algorithm in rounds, with the longest-path label of each vertex kept
along. It places every vertex exactly when no walk returns to its start, and
then the label of a vertex is the length of the longest walk that ends in it.
-/

namespace Desk

namespace Layers

/-! ## Walks -/

section
variable {α : Type} {r : α → α → Prop}

/-- A walk of so many edges ends in this vertex. -/
inductive Path (r : α → α → Prop) : Nat → α → Prop
  | start (v : α) : Path r 0 v
  | snoc {n : Nat} {u v : α} : Path r n u → r u v → Path r (n + 1) v

/-- No walk returns to its start. -/
def Acyclic (r : α → α → Prop) : Prop := ∀ v, ¬ Relation.TransGen r v v

theorem Path.le_label {label : α → Nat} (h : ∀ {u v}, r u v → label u < label v) {n : Nat} {v : α} (hp : Path r n v) :
    n ≤ label v := by
  induction hp with
  | start v => exact Nat.zero_le _
  | snoc _ huv ih => exact Nat.lt_of_le_of_lt ih (h huv)

theorem acyclic_of_label {label : α → Nat} (h : ∀ {u v}, r u v → label u < label v) : Acyclic r := by
  intro v hv
  have hlt : ∀ {a b}, Relation.TransGen r a b → label a < label b := by
    intro a b hab
    induction hab with
    | single hr => exact h hr
    | tail _ hr ih => exact Nat.lt_trans ih (h hr)
  exact Nat.lt_irrefl _ (hlt hv)

/-- Where labels are longest walks, every length below a label is a label. -/
theorem exists_label {ids : List α} {label : α → Nat} (hids : ∀ {u v}, r u v → u ∈ ids)
    (hgreatest : ∀ v ∈ ids, IsGreatest {n | Path r n v} (label v)) {n : Nat} :
    ∀ {v : α}, v ∈ ids → n ≤ label v → ∃ u ∈ ids, label u = n := by
  have hstep : ∀ m {v : α}, v ∈ ids → label v = n + m → ∃ u ∈ ids, label u = n := by
    intro m
    induction m with
    | zero => exact fun {v} hv hlabel => ⟨v, hv, hlabel⟩
    | succ m ih =>
      intro v hv hlabel
      have hpath : Path r (n + m + 1) v := hlabel ▸ (hgreatest v hv).1
      obtain _ | ⟨hu, huv⟩ := hpath
      rename_i u
      have hlow : n + m ≤ label u := (hgreatest u (hids huv)).2 hu
      have hhigh : label u + 1 ≤ label v := (hgreatest v hv).2 ((hgreatest u (hids huv)).1.snoc huv)
      exact ih (hids huv) (by omega)
  exact fun {v} hv hle => hstep (label v - n) hv (by omega)

/-- Among finitely many vertices one has no edge from the others. -/
theorem Acyclic.exists_source (h : Acyclic r) {s : List α} (hs : s ≠ []) : ∃ v ∈ s, ∀ u ∈ s, ¬ r u v := by
  let below : {v // v ∈ s} → {v // v ∈ s} → Prop := fun u v => Relation.TransGen r u v
  have : Finite {v // v ∈ s} := s.finite_toSet
  have : IsTrans _ below := ⟨fun _ _ _ hab hbc => hab.trans hbc⟩
  have : Std.Irrefl below := ⟨fun v => h v⟩
  obtain ⟨w, hw⟩ := List.exists_mem_of_ne_nil s hs
  obtain ⟨v, _, hmin⟩ := (Finite.wellFounded_of_trans_of_irrefl below).has_min Set.univ ⟨⟨w, hw⟩, trivial⟩
  exact ⟨v, v.2, fun u hu huv => hmin ⟨u, hu⟩ trivial (.single huv)⟩

end

/-! ## The algorithm -/

section
variable {α : Type} [DecidableEq α]

/-- The maps and lists of the loop: `next` is what the round placed so far. -/
structure Walk (α : Type) where
  indegree : α → Int
  layer : α → Option Nat
  placed : List α
  frontier : List α
  next : List α

/-- Where each vertex leads to, in the order of the edges, and how many edges lead to it. -/
def adjacency (edges : List (α × α)) : (α → List α) × (α → Int) :=
  edges.foldl (fun maps edge =>
    (Function.update maps.1 edge.1 (maps.1 edge.1 ++ [edge.2]),
      Function.update maps.2 edge.2 (maps.2 edge.2 + 1))) (fun _ => [], fun _ => 0)

/-- A vertex is below the lowest thing that leads to it, and placed with the last edge that leads to it. -/
def relax (id : α) (w : Walk α) (target : α) : Walk α :=
  let layer := Function.update w.layer target (some (max ((w.layer target).getD 0) ((w.layer id).getD 0 + 1)))
  let indegree := Function.update w.indegree target (w.indegree target - 1)
  if indegree target = 0 ∧ target ∉ w.placed then
    { w with layer, indegree, placed := w.placed ++ [target], next := w.next ++ [target] }
  else { w with layer, indegree }

def expand (out : α → List α) (w : Walk α) (id : α) : Walk α := (out id).foldl (relax id) w

def round (out : α → List α) (w : Walk α) : Walk α :=
  let w := w.frontier.foldl (expand out) { w with next := [] }
  { w with frontier := w.next }

/-- Rounds while the frontier holds something; `none` where there is not fuel enough. -/
def rounds (out : α → List α) : Nat → Walk α → Option (Walk α)
  | 0, w => if w.frontier = [] then some w else none
  | fuel + 1, w => if w.frontier = [] then some w else rounds out fuel (round out w)

def start (ids : List α) (indegree : α → Int) : Walk α :=
  let frontier := ids.filter fun id => indegree id = 0
  { indegree, layer := fun id => if id ∈ frontier then some 0 else none, placed := frontier, frontier, next := [] }

def walk (ids : List α) (edges : List (α × α)) : Option (Walk α) :=
  rounds (adjacency edges).1 ids.length (start ids (adjacency edges).2)

/-! ## What the edges give -/

theorem adjacency_append (edges : List (α × α)) (edge : α × α) : adjacency (edges ++ [edge]) =
    (Function.update (adjacency edges).1 edge.1 ((adjacency edges).1 edge.1 ++ [edge.2]),
      Function.update (adjacency edges).2 edge.2 ((adjacency edges).2 edge.2 + 1)) := by
  rw [adjacency, List.foldl_append]
  rfl

theorem adjacency_out (edges : List (α × α)) (v : α) :
    (adjacency edges).1 v = (edges.filter fun edge => edge.1 = v).map Prod.snd := by
  induction edges using List.reverseRecOn with
  | nil => rfl
  | append_singleton edges edge ih =>
    rw [adjacency_append, List.filter_append, List.map_append, ← ih]
    by_cases h : edge.1 = v
    · subst h
      simp
    · simp [h, Function.update_of_ne (Ne.symm h)]

theorem adjacency_indegree (edges : List (α × α)) (v : α) :
    (adjacency edges).2 v = (edges.countP fun edge => edge.2 = v : Nat) := by
  induction edges using List.reverseRecOn with
  | nil => rfl
  | append_singleton edges edge ih =>
    rw [adjacency_append, List.countP_append]
    by_cases h : edge.2 = v
    · subst h
      simp [ih]
    · simp [h, Function.update_of_ne (Ne.symm h), ih]

/-- The edges that leave a vertex, as the loop takes them. -/
theorem edges_from (edges : List (α × α)) (v : α) :
    ((adjacency edges).1 v).map (fun target => (v, target)) = edges.filter fun edge => edge.1 = v := by
  rw [adjacency_out, List.map_map]
  refine (List.map_congr_left fun edge hedge => ?_).trans (List.map_id _)
  have hv : edge.1 = v := by simpa using (List.mem_filter.mp hedge).2
  rw [← hv]
  rfl

/-! ## The invariant of the loop -/

/-- What holds once the edges `seen` have been followed; they leave placed vertices. -/
structure Followed (ids : List α) (edges seen : List (α × α)) (w : Walk α) : Prop where
  subperm : seen.Subperm edges
  indegree : ∀ v, w.indegree v + (seen.countP fun edge => edge.2 = v : Nat) = (edges.countP fun edge => edge.2 = v : Nat)
  path : ∀ {v n}, w.layer v = some n → Path (fun u v => (u, v) ∈ edges) n v
  label : ∀ {u v}, (u, v) ∈ seen → ∃ m n, w.layer u = some m ∧ w.layer v = some n ∧ m < n
  placed : ∀ {v}, v ∈ w.placed ↔ v ∈ ids ∧ w.indegree v = 0
  layered : ∀ {v}, v ∈ w.placed → ∃ n, w.layer v = some n
  source : ∀ {u v}, (u, v) ∈ seen → u ∈ w.placed
  nodup : w.placed.Nodup

variable {ids : List α} {edges seen : List (α × α)} {w : Walk α}

theorem Followed.perm (h : Followed ids edges seen w) {seen' : List (α × α)} (hp : seen.Perm seen') :
    Followed ids edges seen' w where
  subperm := hp.symm.subperm.trans h.subperm
  indegree v := by rw [← hp.countP_eq]; exact h.indegree v
  path := h.path
  label he := h.label (hp.mem_iff.mpr he)
  placed := h.placed
  layered := h.layered
  source he := h.source (hp.mem_iff.mpr he)
  nodup := h.nodup

/-- An edge not yet followed leads to a vertex not yet placed. -/
theorem Followed.target (h : Followed ids edges seen w) {id target : α}
    (hsub : (seen ++ [(id, target)]).Subperm edges) : 1 ≤ w.indegree target ∧ target ∉ w.placed := by
  have hcount := hsub.countP_le fun edge => decide (edge.2 = target)
  have hin := h.indegree target
  rw [List.countP_append] at hcount
  have hone : List.countP (fun edge : α × α => decide (edge.2 = target)) [(id, target)] = 1 := by simp
  have hpos : 1 ≤ w.indegree target := by omega
  refine ⟨hpos, fun hmem => ?_⟩
  have hzero := (h.placed.mp hmem).2
  omega

/-- The label a vertex gets, and the walk that has this length. -/
theorem Followed.relaxed (h : Followed ids edges seen w) {id target : α} {m : Nat} (hm : w.layer id = some m)
    (hedge : (id, target) ∈ edges) :
    Path (fun u v => (u, v) ∈ edges) (max ((w.layer target).getD 0) ((w.layer id).getD 0 + 1)) target := by
  have hnew : Path (fun u v => (u, v) ∈ edges) (m + 1) target := (h.path hm).snoc hedge
  cases hn : w.layer target with
  | none => simpa [hm] using hnew
  | some n =>
    rcases Nat.le_total n (m + 1) with hle | hle
    · simpa [hm, Nat.max_eq_right hle] using hnew
    · simpa [hm, Nat.max_eq_left hle] using h.path hn

/-- Following one more edge. -/
theorem Followed.relax (h : Followed ids edges seen w) (hids : ∀ {u v}, (u, v) ∈ edges → v ∈ ids) {id target : α}
    (hid : id ∈ w.placed) (hsub : (seen ++ [(id, target)]).Subperm edges) :
    Followed ids edges (seen ++ [(id, target)]) (relax id w target) ∧
      ∃ added, (relax id w target).placed = w.placed ++ added ∧ (relax id w target).next = w.next ++ added := by
  obtain ⟨hpos, hout⟩ := h.target hsub
  obtain ⟨m, hm⟩ := h.layered hid
  have hedge : (id, target) ∈ edges := hsub.subset (by simp)
  have hne : id ≠ target := fun he => hout (he ▸ hid)
  have hlayer : (Layers.relax id w target).layer =
      Function.update w.layer target (some (max ((w.layer target).getD 0) ((w.layer id).getD 0 + 1))) := by
    unfold Layers.relax; dsimp only; split <;> rfl
  have hindegree : (Layers.relax id w target).indegree = Function.update w.indegree target (w.indegree target - 1) := by
    unfold Layers.relax; dsimp only; split <;> rfl
  have hplaced : ∃ added, (Layers.relax id w target).placed = w.placed ++ added ∧
      (Layers.relax id w target).next = w.next ++ added ∧
      ((w.indegree target - 1 = 0 ∧ added = [target]) ∨ (w.indegree target - 1 ≠ 0 ∧ added = [])) := by
    unfold Layers.relax
    dsimp only
    rw [Function.update_self]
    by_cases hz : w.indegree target - 1 = 0
    · rw [if_pos ⟨hz, hout⟩]
      exact ⟨[target], rfl, rfl, .inl ⟨hz, rfl⟩⟩
    · rw [if_neg fun hc => hz hc.1]
      exact ⟨[], by simp, by simp, .inr ⟨hz, rfl⟩⟩
  obtain ⟨added, hadded, hnext, hcase⟩ := hplaced
  refine ⟨?_, added, hadded, hnext⟩
  have hself : (Layers.relax id w target).layer target = some (max ((w.layer target).getD 0) (m + 1)) := by
    rw [hlayer, Function.update_self, hm]
    rfl
  have hother : ∀ {v}, v ≠ target → (Layers.relax id w target).layer v = w.layer v := fun hv => by
    rw [hlayer, Function.update_of_ne hv]
  constructor
  · exact hsub
  · intro v
    rw [hindegree, List.countP_append]
    have hin := h.indegree v
    by_cases hv : v = target
    · subst hv
      simp only [Function.update_self, List.countP_cons, List.countP_nil, decide_true, if_true]
      omega
    · have : target ≠ v := Ne.symm hv
      simp only [Function.update_of_ne hv, List.countP_cons, List.countP_nil, this, decide_false]
      simpa using hin
  · intro v n hv
    by_cases hvt : v = target
    · subst hvt
      rw [hlayer, Function.update_self] at hv
      exact Option.some.inj hv ▸ h.relaxed hm hedge
    · exact h.path (hother hvt ▸ hv)
  · intro u v hmem
    rcases List.mem_append.mp hmem with hmem | hmem
    · -- the source of an edge followed before keeps its label, the target's only grows
      have hu : u ≠ target := fun he => hout (he ▸ h.source hmem)
      obtain ⟨m', n', hm', hn', hlt⟩ := h.label hmem
      by_cases hv : v = target
      · subst hv
        refine ⟨m', _, (hother hu).trans hm', hself, ?_⟩
        rw [hn']
        exact Nat.lt_of_lt_of_le hlt (Nat.le_max_left _ _)
      · exact ⟨m', n', (hother hu).trans hm', (hother hv).trans hn', hlt⟩
    · obtain ⟨rfl, rfl⟩ := Prod.mk.inj (List.mem_singleton.mp hmem)
      exact ⟨m, _, (hother hne).trans hm, hself, Nat.lt_of_lt_of_le (Nat.lt_succ_self m) (Nat.le_max_right _ _)⟩
  · intro v
    rw [hadded, hindegree, List.mem_append]
    by_cases hv : v = target
    · subst hv
      rw [Function.update_self]
      rcases hcase with ⟨hz, rfl⟩ | ⟨hz, rfl⟩
      · simp [hz, hids hedge]
      · simp [hz, hout]
    · rw [Function.update_of_ne hv, h.placed]
      rcases hcase with ⟨_, rfl⟩ | ⟨_, rfl⟩ <;> simp [hv]
  · intro v hv
    by_cases hvt : v = target
    · subst hvt
      exact ⟨_, hself⟩
    · rw [hadded] at hv
      rw [hother hvt]
      refine h.layered ((List.mem_append.mp hv).resolve_right fun hmem => ?_)
      rcases hcase with ⟨_, rfl⟩ | ⟨_, rfl⟩
      · exact hvt (List.mem_singleton.mp hmem)
      · cases hmem
  · intro u v hmem
    rw [hadded]
    refine List.mem_append_left _ ?_
    rcases List.mem_append.mp hmem with hmem | hmem
    · exact h.source hmem
    · obtain ⟨rfl, rfl⟩ := Prod.mk.inj (List.mem_singleton.mp hmem)
      exact hid
  · rw [hadded]
    rcases hcase with ⟨_, rfl⟩ | ⟨_, rfl⟩
    · exact List.nodup_append.mpr ⟨h.nodup, List.nodup_singleton _, fun a ha b hb hab =>
        hout (List.mem_singleton.mp hb ▸ hab ▸ ha)⟩
    · simpa using h.nodup

/-! ## From one edge to the whole loop -/

theorem Followed.targets (hids : ∀ {u v}, (u, v) ∈ edges → v ∈ ids) {id : α} : ∀ (targets : List α) {seen : List (α × α)}
    {w : Walk α}, Followed ids edges seen w → id ∈ w.placed → (seen ++ targets.map fun t => (id, t)).Subperm edges →
    Followed ids edges (seen ++ targets.map fun t => (id, t)) (targets.foldl (Layers.relax id) w) ∧
      ∃ added, (targets.foldl (Layers.relax id) w).placed = w.placed ++ added ∧
        (targets.foldl (Layers.relax id) w).next = w.next ++ added
  | [], seen, w, h, _, _ => ⟨by simpa using h, [], by simp, by simp⟩
  | target :: targets, seen, w, h, hid, hsub => by
    have hsplit : seen ++ (target :: targets).map (fun t => (id, t)) =
        (seen ++ [(id, target)]) ++ targets.map fun t => (id, t) := by simp
    rw [hsplit] at hsub ⊢
    have hone : (seen ++ [(id, target)]).Subperm edges := (List.sublist_append_left _ _).subperm.trans hsub
    obtain ⟨h', added, hplaced, hnext⟩ := h.relax hids hid hone
    have hid' : id ∈ (Layers.relax id w target).placed := by
      rw [hplaced]
      exact List.mem_append_left _ hid
    obtain ⟨h'', more, hplaced', hnext'⟩ := h'.targets hids targets hid' hsub
    refine ⟨h'', added ++ more, ?_, ?_⟩
    · rw [List.foldl_cons, hplaced', hplaced, List.append_assoc]
    · rw [List.foldl_cons, hnext', hnext, List.append_assoc]

/-- The edges that leave the vertices of a list. -/
def leaving (edges : List (α × α)) (from_ : List α) : List (α × α) := edges.filter fun edge => edge.1 ∈ from_

theorem leaving_snoc (edges : List (α × α)) {expanded : List α} {id : α} (hid : id ∉ expanded) :
    (leaving edges expanded ++ edges.filter fun edge => edge.1 = id).Perm (leaving edges (expanded ++ [id])) := by
  unfold leaving
  induction edges with
  | nil => exact List.Perm.nil
  | cons edge edges ih =>
    by_cases h : edge.1 = id
    · have hout : edge.1 ∉ expanded := h ▸ hid
      have hin : edge.1 ∈ expanded ++ [id] := List.mem_append_right _ (List.mem_singleton.mpr h)
      simp only [List.filter_cons, h, hid, h ▸ hin, decide_false, decide_true, Bool.false_eq_true, if_true, if_false]
      exact List.perm_middle.trans (ih.cons edge)
    · by_cases hin : edge.1 ∈ expanded
      · simpa [h, hin] using ih
      · simpa [h, hin] using ih

theorem Followed.expand (hids : ∀ {u v}, (u, v) ∈ edges → v ∈ ids) {expanded : List α} {id : α}
    (h : Followed ids edges (leaving edges expanded) w) (hid : id ∈ w.placed) (hout : id ∉ expanded) :
    Followed ids edges (leaving edges (expanded ++ [id])) (expand (adjacency edges).1 w id) ∧
      ∃ added, (expand (adjacency edges).1 w id).placed = w.placed ++ added ∧
        (expand (adjacency edges).1 w id).next = w.next ++ added := by
  have hperm := leaving_snoc edges hout
  rw [← edges_from] at hperm
  have hsub : (leaving edges expanded ++ ((adjacency edges).1 id).map fun t => (id, t)).Subperm edges :=
    hperm.subperm.trans List.filter_sublist.subperm
  obtain ⟨h', hadded⟩ := h.targets hids ((adjacency edges).1 id) hid hsub
  exact ⟨h'.perm hperm, hadded⟩

/-- A whole round: what was waiting is expanded, what is placed anew is in `next`. -/
theorem Followed.frontier (hids : ∀ {u v}, (u, v) ∈ edges → v ∈ ids) : ∀ (rest : List α) {expanded : List α} {w : Walk α},
    Followed ids edges (leaving edges expanded) w → w.placed = expanded ++ rest ++ w.next →
    Followed ids edges (leaving edges (expanded ++ rest)) (rest.foldl (Layers.expand (adjacency edges).1) w) ∧
      (rest.foldl (Layers.expand (adjacency edges).1) w).placed =
        expanded ++ rest ++ (rest.foldl (Layers.expand (adjacency edges).1) w).next
  | [], expanded, w, h, hplaced => by
    rw [List.append_nil] at hplaced ⊢
    exact ⟨h, hplaced⟩
  | id :: rest, expanded, w, h, hplaced => by
    have hid : id ∈ w.placed := by simp [hplaced]
    have hnodup : (expanded ++ (id :: rest) ++ w.next).Nodup := hplaced ▸ h.nodup
    have hout : id ∉ expanded := fun hmem =>
      (List.nodup_append.mp (List.nodup_append.mp hnodup).1).2.2 id hmem id (List.mem_cons_self ..) rfl
    obtain ⟨h', added, hplaced', hnext'⟩ := h.expand hids hid hout
    have hsplit : expanded ++ id :: rest = (expanded ++ [id]) ++ rest := by simp
    rw [List.foldl_cons, hsplit]
    refine h'.frontier hids rest ?_
    rw [hplaced', hplaced, hnext', hsplit]
    simp

theorem Followed.round (hids : ∀ {u v}, (u, v) ∈ edges → v ∈ ids) {expanded : List α}
    (h : Followed ids edges (leaving edges expanded) w) (hplaced : w.placed = expanded ++ w.frontier) :
    Followed ids edges (leaving edges (expanded ++ w.frontier)) (Layers.round (adjacency edges).1 w) ∧
      (Layers.round (adjacency edges).1 w).placed =
        expanded ++ w.frontier ++ (Layers.round (adjacency edges).1 w).frontier := by
  have hstart : Followed ids edges (leaving edges expanded) { w with next := [] } := { h with }
  obtain ⟨h', hplaced'⟩ := hstart.frontier hids w.frontier (by simpa using hplaced)
  exact ⟨{ h' with }, hplaced'⟩

/-- With a round for each vertex the loop ends. -/
theorem Followed.rounds (hids : ∀ {u v}, (u, v) ∈ edges → v ∈ ids) : ∀ (fuel : Nat) {expanded : List α} {w : Walk α},
    Followed ids edges (leaving edges expanded) w → w.placed = expanded ++ w.frontier →
    ids.length ≤ fuel + expanded.length →
    ∃ w', Layers.rounds (adjacency edges).1 fuel w = some w' ∧ Followed ids edges (leaving edges w'.placed) w'
  | fuel, expanded, w, h, hplaced, hfuel => by
    by_cases hempty : w.frontier = []
    · refine ⟨w, by cases fuel <;> exact if_pos hempty, ?_⟩
      rw [hplaced, hempty, List.append_nil]
      exact h
    · have hle : w.placed.length ≤ ids.length :=
        (h.nodup.subperm fun v hv => (h.placed.mp hv).1).length_le
      have hpos : 0 < w.frontier.length := List.length_pos_iff.mpr hempty
      rw [hplaced, List.length_append] at hle
      cases fuel with
      | zero => omega
      | succ fuel =>
        obtain ⟨h', hplaced'⟩ := h.round hids hplaced
        have hlength : ids.length ≤ fuel + (expanded ++ w.frontier).length := by
          rw [List.length_append]
          omega
        obtain ⟨w', hw', hfollowed⟩ := h'.rounds hids fuel hplaced' hlength
        exact ⟨w', by rw [Layers.rounds, if_neg hempty, hw'], hfollowed⟩

/-- Where the loop starts nothing is followed and the vertices no edge leads to are placed. -/
theorem followed_start (hnodup : ids.Nodup) :
    Followed ids edges (leaving edges []) (start ids (adjacency edges).2) := by
  have hseen : leaving edges [] = [] := by simp [leaving]
  rw [hseen]
  constructor
  · exact List.nil_subperm
  · intro v
    simp only [start, adjacency_indegree, List.countP_nil]
    omega
  · intro v n hv
    simp only [start] at hv
    split at hv
    · exact Option.some.inj hv ▸ .start v
    · cases hv
  · intro u v hmem
    cases hmem
  · intro v
    simp [start]
  · intro v hv
    exact ⟨0, if_pos hv⟩
  · intro u v hmem
    cases hmem
  · exact hnodup.filter _

/-! ## What the walk says -/

theorem Followed.increasing (h : Followed ids edges (leaving edges w.placed) w)
    (hids : ∀ {u v}, (u, v) ∈ edges → u ∈ ids ∧ v ∈ ids) (hall : ∀ v ∈ ids, v ∈ w.placed) {u v : α}
    (he : (u, v) ∈ edges) : (w.layer u).getD 0 < (w.layer v).getD 0 := by
  have hseen : (u, v) ∈ leaving edges w.placed := List.mem_filter.mpr ⟨he, by simpa using hall u (hids he).1⟩
  obtain ⟨m, n, hm, hn, hlt⟩ := h.label hseen
  rw [hm, hn]
  exact hlt

/-- What could not be placed has a predecessor that could not be placed either. -/
theorem Followed.not_acyclic (h : Followed ids edges (leaving edges w.placed) w)
    (hids : ∀ {u v}, (u, v) ∈ edges → u ∈ ids ∧ v ∈ ids) (hsome : ∃ v ∈ ids, v ∉ w.placed) :
    ¬ Acyclic fun u v => (u, v) ∈ edges := by
  intro hacyclic
  obtain ⟨v₀, hv₀, hout₀⟩ := hsome
  have hne : (ids.filter fun v => v ∉ w.placed) ≠ [] :=
    List.ne_nil_of_mem (List.mem_filter.mpr ⟨hv₀, by simpa using hout₀⟩)
  obtain ⟨v, hv, hsource⟩ := hacyclic.exists_source hne
  obtain ⟨hvid, hvout⟩ := List.mem_filter.mp hv
  have hvout : v ∉ w.placed := by simpa using hvout
  have hall : ∀ edge ∈ edges, edge.2 = v → edge.1 ∈ w.placed := by
    intro edge hedge hto
    by_contra hout
    have hedge' : (edge.1, v) ∈ edges := hto ▸ hedge
    exact hsource edge.1 (List.mem_filter.mpr ⟨(hids hedge').1, by simpa using hout⟩) hedge'
  have hcount : (leaving edges w.placed).countP (fun edge => edge.2 = v) = edges.countP fun edge => edge.2 = v := by
    rw [leaving, List.countP_filter]
    refine List.countP_congr fun edge hedge => ?_
    simp only [Bool.and_eq_true, decide_eq_true_eq]
    exact ⟨fun hc => hc.1, fun hc => ⟨hc, hall edge hedge hc⟩⟩
  have hin := h.indegree v
  rw [hcount] at hin
  exact hvout (h.placed.mpr ⟨hvid, by omega⟩)

/-- The walk ends; it places every vertex exactly when the edges are acyclic, and labels those then with longest walks. -/
theorem walk_spec (hnodup : ids.Nodup) (hids : ∀ {u v}, (u, v) ∈ edges → u ∈ ids ∧ v ∈ ids) :
    ∃ w, walk ids edges = some w ∧ ((∀ v ∈ ids, v ∈ w.placed) ↔ Acyclic fun u v => (u, v) ∈ edges) ∧
      ((∀ v ∈ ids, v ∈ w.placed) → ∀ v ∈ ids,
        IsGreatest {n | Path (fun u v => (u, v) ∈ edges) n v} ((w.layer v).getD 0)) := by
  obtain ⟨w, hw, h⟩ := (followed_start hnodup).rounds (fun he => (hids he).2) ids.length rfl (by simp)
  refine ⟨w, hw, ⟨fun hall => ?_, fun hacyclic => ?_⟩, fun hall v hv => ⟨?_, ?_⟩⟩
  · exact acyclic_of_label fun {u v} he => h.increasing hids hall he
  · by_contra hsome
    push Not at hsome
    exact h.not_acyclic hids hsome hacyclic
  · obtain ⟨n, hn⟩ := h.layered (hall v hv)
    rw [hn]
    exact h.path hn
  · intro n hn
    exact hn.le_label fun {u v} he => h.increasing hids hall he

end

end Layers

end Desk
