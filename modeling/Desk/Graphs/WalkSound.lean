import Desk.Graphs.GraphDocument
import Desk.Lib.Keyed
import Desk.Packs.ConditionSound
import Desk.Packs.SpliceSound

/-!
# The layout of a graph document

What is drawn is the longest-path layering of the edges between declared nodes,
and what is not drawn has a cycle among them.
-/

namespace Desk

namespace GraphDocument

open DocumentText (Engine objectKeys)

/-! ## What a read document holds -/

section
variable {ν : Type}

/-- A read document declares a node, and each node once. -/
theorem readGraphDocument_declared {e : Engine ν} {text : Units} {document : ReadGraphDocument}
    (h : readGraphDocument e text = .ok document) : document.declared.Nodup ∧ document.ids ≠ [] := by
  unfold readGraphDocument at h
  split at h
  · cases h
  · rename_i value hparse
    split at h
    · rename_i nodes hnodes
      have hmem : (wordText "nodes", Value.obj nodes) ∈ value := by
        obtain ⟨m, hm, hv⟩ := Option.map_eq_some_iff.mp hnodes
        have hname : m.1 = wordText "nodes" := by simpa using List.find?_some hm
        rw [← hname, ← hv]
        exact List.mem_of_find?_eq_some hm
      have hnodup := ((JsonParse.built_of_parse hparse).members.2 _ hmem).members.1
      have hids : objectKeys (nodes.map Prod.fst) ≠ [] := by
        intro hempty
        rw [hempty] at h
        cases h
      have hnames : (nodes.map fun m => (m.1, nodeOf m.2)).map Prod.fst = nodes.map Prod.fst := by
        rw [List.map_map]
        rfl
      have hdeclared : document.declared = nodes.map Prod.fst := by
        rw [← hnames]
        simp only [bind, Except.bind, pure, Except.pure] at h
        repeat' split at h
        all_goals first
          | (cases h; rfl)
          | cases h
      rw [ReadGraphDocument.ids, hdeclared]
      exact ⟨hnodup, hids⟩
    · cases h
  · cases h

end

/-! ## What a layout should be -/

/-- An edge between declared nodes. -/
def ReadGraphDocument.Feeds (document : ReadGraphDocument) (u v : Units) : Prop :=
  ∃ edge ∈ document.edges, edge.from_ = u ∧ edge.to_ = v ∧ u ∈ document.declared ∧ v ∈ document.declared

def WalkShape.layerNodes (shape : WalkShape) (layer : Nat) : List WalkNode := shape.nodes.filter fun node => node.layer = layer

/-- The longest-path layering, with the nodes that the coverage does not name in the given order. -/
structure LaidOut (order : List Units) (document : ReadGraphDocument) (coverage : Option (List Probe)) (shape : WalkShape) :
    Prop where
  once : (shape.nodes.map WalkNode.id).Nodup
  every : ∀ id, id ∈ shape.nodes.map WalkNode.id ↔ id ∈ document.declared
  longest : ∀ node ∈ shape.nodes, IsGreatest {n | Layers.Path document.Feeds n node.id} node.layer
  downward : ∀ u ∈ shape.nodes, ∀ v ∈ shape.nodes, document.Feeds u.id v.id → u.layer < v.layer
  contiguous : ∀ layer, (∃ node ∈ shape.nodes, node.layer = layer) ↔ layer < shape.depth
  columns : ∀ layer, (shape.layerNodes layer).map WalkNode.column = List.range (shape.layerNodes layer).length
  ordered : ∀ layer, (shape.layerNodes layer).map WalkNode.id =
    (nodesInWalkOrder coverage).filter (fun id => id ∈ (shape.layerNodes layer).map WalkNode.id) ++
      order.filter fun id => id ∈ (shape.layerNodes layer).map WalkNode.id ∧ id ∉ nodesInWalkOrder coverage
  width : (∀ layer, (shape.layerNodes layer).length ≤ shape.width) ∧ ∃ layer, (shape.layerNodes layer).length = shape.width
  edges : shape.edges.map WalkEdge.edge = document.edges
  indices : shape.edges.map WalkEdge.index = List.range document.edges.length
  drawable : ∀ edge ∈ shape.edges,
    edge.drawable = true ↔ edge.edge.from_ ∈ document.declared ∧ edge.edge.to_ ∈ document.declared

/-! ## The edges the layering takes -/

theorem mem_ids {document : ReadGraphDocument} {id : Units} : id ∈ document.ids ↔ id ∈ document.declared :=
  (ConditionOps.objectKeys_perm _).mem_iff

theorem walkEdges_edge (document : ReadGraphDocument) : (walkEdges document).map WalkEdge.edge = document.edges := by
  refine List.ext_getElem (by simp [walkEdges]) fun i _ _ => ?_
  simp [walkEdges]

theorem walkEdges_index (document : ReadGraphDocument) :
    (walkEdges document).map WalkEdge.index = List.range document.edges.length := by
  refine List.ext_getElem (by simp [walkEdges]) fun i _ _ => ?_
  simp [walkEdges]

theorem walkEdges_drawable {document : ReadGraphDocument} {edge : WalkEdge} (h : edge ∈ walkEdges document) :
    edge.drawable = true ↔ edge.edge.from_ ∈ document.declared ∧ edge.edge.to_ ∈ document.declared := by
  obtain ⟨i, hi, rfl⟩ := List.mem_mapIdx.mp h
  simp [mem_ids]

theorem mem_structural {document : ReadGraphDocument} {u v : Units} :
    (u, v) ∈ structural document ↔ document.Feeds u v := by
  unfold structural
  constructor
  · intro h
    obtain ⟨edge, hedge, heq⟩ := List.mem_map.mp h
    obtain ⟨hmem, hdrawable⟩ := List.mem_filter.mp hedge
    obtain ⟨hfrom, hto⟩ := (walkEdges_drawable hmem).mp hdrawable
    obtain ⟨rfl, rfl⟩ := Prod.mk.inj heq
    exact ⟨edge.edge, walkEdges_edge document ▸ List.mem_map_of_mem hmem, rfl, rfl, hfrom, hto⟩
  · rintro ⟨edge, hedge, rfl, rfl, hfrom, hto⟩
    rw [← walkEdges_edge] at hedge
    obtain ⟨walkEdge, hmem, rfl⟩ := List.mem_map.mp hedge
    exact List.mem_map.mpr ⟨walkEdge, List.mem_filter.mpr ⟨hmem, (walkEdges_drawable hmem).mpr ⟨hfrom, hto⟩⟩, rfl⟩

/-! ## The order of a row -/

theorem nodup_nodesInWalkOrder (coverage : Option (List Probe)) : (nodesInWalkOrder coverage).Nodup := by
  unfold nodesInWalkOrder
  refine List.foldlRecOn (motive := List.Nodup) _ _ List.nodup_nil fun seen h probe _ => ?_
  split
  · rename_i node _
    by_cases hnode : node ∈ seen
    · rwa [if_pos hnode]
    · rw [if_neg hnode]
      exact nodup_append_singleton.mpr ⟨h, hnode⟩
  · exact h

theorem pairwise_idxOf {l : List Units} (h : l.Nodup) : l.Pairwise fun a b => l.idxOf a ≤ l.idxOf b := by
  refine List.pairwise_iff_getElem.mpr fun i j hi hj hij => ?_
  rw [h.idxOf_getElem, h.idxOf_getElem]
  exact Nat.le_of_lt hij

theorem rank_of_mem {walkOrder ids : List Units} {id : Units} (h : id ∈ walkOrder) :
    rank walkOrder ids id = walkOrder.idxOf id := if_pos h

theorem rank_of_not_mem {walkOrder ids : List Units} {id : Units} (h : id ∉ walkOrder) :
    rank walkOrder ids id = walkOrder.length + ids.idxOf id := if_neg h

theorem rank_injective {walkOrder ids : List Units} {a b : Units} (ha : a ∈ ids)
    (h : rank walkOrder ids a = rank walkOrder ids b) : a = b := by
  by_cases hwa : a ∈ walkOrder
  · have hlta := List.idxOf_lt_length_of_mem hwa
    by_cases hwb : b ∈ walkOrder
    · rw [rank_of_mem hwa, rank_of_mem hwb] at h
      exact (List.idxOf_inj hwa).mp h
    · rw [rank_of_mem hwa, rank_of_not_mem hwb] at h
      omega
  · by_cases hwb : b ∈ walkOrder
    · have hltb := List.idxOf_lt_length_of_mem hwb
      rw [rank_of_not_mem hwa, rank_of_mem hwb] at h
      omega
    · rw [rank_of_not_mem hwa, rank_of_not_mem hwb] at h
      exact (List.idxOf_inj ha).mp (Nat.add_left_cancel h)

/-- A row is what the coverage names of the layer, in its order, and then the others in theirs. -/
theorem row_eq {walkOrder ids : List Units} (hw : walkOrder.Nodup) (hids : ids.Nodup) (layer : Units → Nat) (at_ : Nat) :
    row walkOrder ids layer at_ = (walkOrder.filter fun id => id ∈ ids ∧ layer id = at_) ++
      ids.filter fun id => layer id = at_ ∧ id ∉ walkOrder := by
  have hmem : ∀ a, a ∈ row walkOrder ids layer at_ ↔ a ∈ ids ∧ layer a = at_ := by simp [row]
  have hnodup : ((walkOrder.filter fun id => id ∈ ids ∧ layer id = at_) ++
      ids.filter fun id => layer id = at_ ∧ id ∉ walkOrder).Nodup := by
    refine List.nodup_append.mpr ⟨hw.filter _, hids.filter _, fun a ha b hb hab => ?_⟩
    have hout := (List.mem_filter.mp hb).2
    have hin := (List.mem_filter.mp ha).1
    simp only [decide_eq_true_eq] at hout
    exact hout.2 (hab ▸ hin)
  refine List.Perm.eq_of_pairwise ?_ (?_ : List.Pairwise (fun a b => rank walkOrder ids a ≤ rank walkOrder ids b) _) ?_ ?_
  · intro a b ha _ hab hba
    exact rank_injective ((hmem a).mp ha).1 (Nat.le_antisymm hab hba)
  · have : Std.Total fun a b => rank walkOrder ids a ≤ rank walkOrder ids b := ⟨fun _ _ => Nat.le_total _ _⟩
    have : IsTrans Units fun a b => rank walkOrder ids a ≤ rank walkOrder ids b := ⟨fun _ _ _ => Nat.le_trans⟩
    exact List.pairwise_insertionSort _ _
  · refine List.pairwise_append.mpr ⟨?_, ?_, ?_⟩
    · refine ((pairwise_idxOf hw).filter _).imp_of_mem fun ha hb hab => ?_
      rwa [rank_of_mem (List.mem_filter.mp ha).1, rank_of_mem (List.mem_filter.mp hb).1]
    · refine ((pairwise_idxOf hids).filter _).imp_of_mem fun ha hb hab => ?_
      have hna := (List.mem_filter.mp ha).2
      have hnb := (List.mem_filter.mp hb).2
      simp only [decide_eq_true_eq] at hna hnb
      rw [rank_of_not_mem hna.2, rank_of_not_mem hnb.2]
      exact Nat.add_le_add_left hab _
    · intro a ha b hb
      have hin := (List.mem_filter.mp ha).1
      have hout := (List.mem_filter.mp hb).2
      simp only [decide_eq_true_eq] at hout
      rw [rank_of_mem hin, rank_of_not_mem hout.2]
      exact Nat.le_trans (Nat.le_of_lt (List.idxOf_lt_length_of_mem hin)) (Nat.le_add_right _ _)
  · refine (List.perm_ext_iff_of_nodup ((List.perm_insertionSort _ _).nodup_iff.mpr (hids.filter _)) hnodup).mpr fun a => ?_
    refine (hmem a).trans ?_
    rw [List.mem_append, List.mem_filter, List.mem_filter]
    simp only [decide_eq_true_eq]
    tauto

/-! ## The nodes of a layer -/

theorem zipIdx_map_range {α : Type} (f : Nat → α) (d : Nat) :
    ((List.range d).map f).zipIdx = (List.range d).map fun n => (f n, n) := by
  refine List.ext_getElem (by simp) fun i _ _ => ?_
  simp

theorem filter_flatMap_range {f : Nat → List WalkNode} (hf : ∀ n, ∀ node ∈ f n, node.layer = n) (d layer : Nat) :
    (((List.range d).flatMap f).filter fun node => node.layer = layer) = if layer < d then f layer else [] := by
  have hsame : ∀ n, ((f n).filter fun node => node.layer = layer) = if n = layer then f n else [] := by
    intro n
    split
    · rename_i h
      exact List.filter_eq_self.mpr fun node hnode => by simpa [hf n node hnode] using h
    · rename_i h
      exact List.filter_eq_nil_iff.mpr fun node hnode => by simpa [hf n node hnode] using h
  induction d with
  | zero => rfl
  | succ d ih =>
    rw [List.range_succ, List.flatMap_append, List.filter_append, ih, List.flatMap_singleton, hsame]
    by_cases hd : d = layer
    · subst hd
      simp
    · by_cases hlt : layer < d
      · simp [hlt, hd, Nat.lt_succ_of_lt hlt]
      · have hnot : ¬ layer < d + 1 := by omega
        simp [hlt, hd, hnot]

theorem foldl_max (l : List Nat) : ∀ a, a ≤ l.foldl max a ∧ (∀ n ∈ l, n ≤ l.foldl max a) ∧
    (l.foldl max a = a ∨ l.foldl max a ∈ l) := by
  induction l with
  | nil => exact fun a => ⟨Nat.le_refl a, nofun, .inl rfl⟩
  | cons m l ih =>
    intro a
    obtain ⟨hle, hall, hmem⟩ := ih (max a m)
    rw [List.foldl_cons]
    refine ⟨Nat.le_trans (Nat.le_max_left a m) hle, fun n hn => ?_, ?_⟩
    · rcases List.mem_cons.mp hn with rfl | hn
      · exact Nat.le_trans (Nat.le_max_right a n) hle
      · exact hall n hn
    · rcases hmem with hmem | hmem
      · rw [hmem]
        rcases Nat.le_total a m with h | h
        · rw [Nat.max_eq_right h]
          exact .inr (List.mem_cons_self ..)
        · exact .inl (Nat.max_eq_left h)
      · exact .inr (List.mem_cons_of_mem _ hmem)

/-- A layer is below the depth exactly when some id has it, where every layer below one that is used is used. -/
theorem lt_depthOf {ids : List Units} {layer : Units → Nat} (hne : ids ≠ [])
    (hdown : ∀ {n v}, v ∈ ids → n ≤ layer v → ∃ u ∈ ids, layer u = n) (n : Nat) :
    n < depthOf ids layer ↔ ∃ id ∈ ids, layer id = n := by
  obtain ⟨_, hall, hmem⟩ := foldl_max (ids.map layer) 0
  rw [depthOf, if_neg hne, Nat.lt_succ_iff]
  constructor
  · intro hle
    obtain ⟨v, hv⟩ := List.exists_mem_of_ne_nil ids hne
    rcases hmem with hmem | hmem
    · rw [hmem] at hle
      exact hdown hv (Nat.le_trans hle (Nat.zero_le _))
    · obtain ⟨top, htop, hlayer⟩ := List.mem_map.mp hmem
      exact hdown htop (hlayer ▸ hle)
  · rintro ⟨id, hid, rfl⟩
    exact hall _ (List.mem_map_of_mem hid)

/-! ## What is drawn -/

/-- The shape of a walk that placed every id. -/
def shapeOf (document : ReadGraphDocument) (walkOrder : List Units) (layer : Units → Nat) : WalkShape :=
  let rows := (List.range (depthOf document.ids layer)).map (row walkOrder document.ids layer)
  { nodes := rows.zipIdx.flatMap fun (row, at_) => row.mapIdx fun column id => walkNode document walkOrder at_ column id
    edges := walkEdges document
    width := (rows.map List.length).foldl max 0
    depth := depthOf document.ids layer
    result := document.result
    resultDangling := document.result.any fun result => result ∉ document.ids }

section
variable {document : ReadGraphDocument} {walkOrder : List Units} {layer : Units → Nat}

theorem map_mapIdx_id (at_ : Nat) (ids : List Units) :
    (ids.mapIdx fun column id => walkNode document walkOrder at_ column id).map WalkNode.id = ids := by
  refine List.ext_getElem (by simp) fun i _ _ => ?_
  simp [walkNode]

theorem map_mapIdx_column (at_ : Nat) (ids : List Units) :
    (ids.mapIdx fun column id => walkNode document walkOrder at_ column id).map WalkNode.column =
      List.range ids.length := by
  refine List.ext_getElem (by simp) fun i _ _ => ?_
  simp [walkNode]

theorem mem_row {ids : List Units} {at_ : Nat} {id : Units} :
    id ∈ row walkOrder ids layer at_ ↔ id ∈ ids ∧ layer id = at_ := by simp [row]

theorem shapeOf_nodes : (shapeOf document walkOrder layer).nodes = (List.range (depthOf document.ids layer)).flatMap fun at_ =>
    (row walkOrder document.ids layer at_).mapIdx fun column id => walkNode document walkOrder at_ column id := by
  simp only [shapeOf]
  rw [zipIdx_map_range, List.flatMap_map]

theorem layerNodes_shapeOf (at_ : Nat) : (shapeOf document walkOrder layer).layerNodes at_ =
    if at_ < depthOf document.ids layer then
      (row walkOrder document.ids layer at_).mapIdx fun column id => walkNode document walkOrder at_ column id
    else [] := by
  rw [WalkShape.layerNodes, shapeOf_nodes]
  refine filter_flatMap_range (fun n node hnode => ?_) _ _
  obtain ⟨i, hi, rfl⟩ := List.mem_mapIdx.mp hnode
  rfl

theorem mem_shapeOf {node : WalkNode} (h : node ∈ (shapeOf document walkOrder layer).nodes) :
    node.id ∈ document.ids ∧ node.layer = layer node.id := by
  rw [shapeOf_nodes] at h
  obtain ⟨at_, _, hnode⟩ := List.mem_flatMap.mp h
  obtain ⟨i, hi, rfl⟩ := List.mem_mapIdx.mp hnode
  obtain ⟨hid, hlayer⟩ := mem_row.mp (List.getElem_mem hi)
  exact ⟨hid, hlayer.symm⟩

theorem nodup_shapeOf (hnodup : document.ids.Nodup) : ((shapeOf document walkOrder layer).nodes.map WalkNode.id).Nodup := by
  rw [shapeOf_nodes, List.map_flatMap]
  simp only [map_mapIdx_id]
  refine List.nodup_flatMap.mpr ⟨fun at_ _ => ?_, ?_⟩
  · exact (List.perm_insertionSort _ _).nodup_iff.mpr (hnodup.filter _)
  · refine List.nodup_range.imp fun {a b} hab id ha hb => ?_
    exact hab ((mem_row.mp ha).2.symm.trans (mem_row.mp hb).2)

variable (hnodup : document.ids.Nodup) (hlayers : ∀ n, n < depthOf document.ids layer ↔ ∃ id ∈ document.ids, layer id = n)
include hlayers

theorem ids_layerNodes (at_ : Nat) : ((shapeOf document walkOrder layer).layerNodes at_).map WalkNode.id =
    row walkOrder document.ids layer at_ := by
  rw [layerNodes_shapeOf]
  split
  · exact map_mapIdx_id at_ _
  · rename_i hout
    have hempty : (document.ids.filter fun id => layer id = at_) = [] :=
      List.filter_eq_nil_iff.mpr fun id hid hlayer => hout ((hlayers at_).mpr ⟨id, hid, by simpa using hlayer⟩)
    rw [row, hempty]
    rfl

theorem mem_ids_shapeOf (id : Units) : id ∈ (shapeOf document walkOrder layer).nodes.map WalkNode.id ↔ id ∈ document.ids := by
  constructor
  · intro h
    obtain ⟨node, hnode, rfl⟩ := List.mem_map.mp h
    exact (mem_shapeOf hnode).1
  · intro h
    have hrow : id ∈ row walkOrder document.ids layer (layer id) := mem_row.mpr ⟨h, rfl⟩
    rw [← ids_layerNodes hlayers] at hrow
    obtain ⟨node, hnode, rfl⟩ := List.mem_map.mp hrow
    exact List.mem_map_of_mem (List.mem_filter.mp hnode).1

include hnodup

/-- A drawn shape is the layering, where the labels of the walk are longest walks. -/
theorem laidOut_shapeOf {coverage : Option (List Probe)} (hw : walkOrder = nodesInWalkOrder coverage)
    (hlongest : ∀ id ∈ document.ids, IsGreatest {n | Layers.Path document.Feeds n id} (layer id)) :
    LaidOut document.ids document coverage (shapeOf document walkOrder layer) where
  once := nodup_shapeOf hnodup
  every id := (mem_ids_shapeOf hlayers id).trans mem_ids
  longest node hnode := by
    obtain ⟨hid, hlayer⟩ := mem_shapeOf hnode
    rw [hlayer]
    exact hlongest node.id hid
  downward u hu v hv huv := by
    obtain ⟨huid, hulayer⟩ := mem_shapeOf hu
    obtain ⟨hvid, hvlayer⟩ := mem_shapeOf hv
    rw [hulayer, hvlayer]
    exact (hlongest v.id hvid).2 ((hlongest u.id huid).1.snoc huv)
  contiguous at_ := by
    refine Iff.trans ?_ (hlayers at_).symm
    constructor
    · rintro ⟨node, hnode, rfl⟩
      obtain ⟨hid, hlayer⟩ := mem_shapeOf hnode
      exact ⟨node.id, hid, hlayer.symm⟩
    · rintro ⟨id, hid, rfl⟩
      have hmem : id ∈ (shapeOf document walkOrder layer).nodes.map WalkNode.id := (mem_ids_shapeOf hlayers id).mpr hid
      obtain ⟨node, hnode, rfl⟩ := List.mem_map.mp hmem
      exact ⟨node, hnode, (mem_shapeOf hnode).2⟩
  columns at_ := by
    rw [layerNodes_shapeOf]
    split
    · rw [map_mapIdx_column, List.length_mapIdx]
    · rfl
  ordered at_ := by
    rw [ids_layerNodes hlayers, ← hw]
    refine (row_eq (hw ▸ nodup_nodesInWalkOrder coverage) hnodup layer at_).trans (congrArg₂ _ ?_ ?_)
    · exact List.filter_congr fun id _ => by simp [mem_row]
    · refine List.filter_congr fun id hid => ?_
      simp [mem_row, hid]
  width := by
    have hlength : ∀ at_, ((shapeOf document walkOrder layer).layerNodes at_).length =
        (row walkOrder document.ids layer at_).length := fun at_ => by
      rw [← ids_layerNodes hlayers, List.length_map]
    obtain ⟨_, hall, hmem⟩ := foldl_max
      (((List.range (depthOf document.ids layer)).map (row walkOrder document.ids layer)).map List.length) 0
    have hle : ∀ at_, ((shapeOf document walkOrder layer).layerNodes at_).length ≤
        (shapeOf document walkOrder layer).width := by
      intro at_
      by_cases hat : at_ < depthOf document.ids layer
      · rw [hlength]
        exact hall _ (List.mem_map_of_mem (List.mem_map_of_mem (List.mem_range.mpr hat)))
      · rw [layerNodes_shapeOf, if_neg hat]
        exact Nat.zero_le _
    refine ⟨hle, ?_⟩
    rcases hmem with hmem | hmem
    · exact ⟨0, Nat.le_antisymm (hle 0) (Nat.le_trans (Nat.le_of_eq hmem) (Nat.zero_le _))⟩
    · obtain ⟨_, hrow, heq⟩ := List.mem_map.mp hmem
      obtain ⟨at_, _, rfl⟩ := List.mem_map.mp hrow
      exact ⟨at_, (hlength at_).trans heq⟩
  edges := walkEdges_edge document
  indices := walkEdges_index document
  drawable _ h := walkEdges_drawable h

end

/-- The layout is drawn exactly when the edges between declared nodes are acyclic, and then it is their layering. -/
theorem deriveWalkLayout_layers {ν : Type} {e : Engine ν} {text : Units} {document : ReadGraphDocument}
    (h : readGraphDocument e text = .ok document) (coverage : Option (List Probe)) :
    ∃ layout, deriveWalkLayout document coverage = some layout ∧
      ((∃ shape, layout = .drawn shape) ↔ Layers.Acyclic document.Feeds) ∧
      ∀ shape, layout = .drawn shape → LaidOut document.ids document coverage shape := by
  obtain ⟨hdeclared, hne⟩ := readGraphDocument_declared h
  have hnodup : document.ids.Nodup := (ConditionOps.objectKeys_perm _).nodup_iff.mpr hdeclared
  have hends : ∀ {u v}, (u, v) ∈ structural document → u ∈ document.ids ∧ v ∈ document.ids := by
    intro u v huv
    obtain ⟨_, _, _, _, hu, hv⟩ := mem_structural.mp huv
    exact ⟨mem_ids.mpr hu, mem_ids.mpr hv⟩
  have hfeeds : (fun u v => (u, v) ∈ structural document) = document.Feeds :=
    funext fun u => funext fun v => propext mem_structural
  obtain ⟨w, hw, hplaced, hlongest⟩ := Layers.walk_spec hnodup hends
  rw [hfeeds] at hplaced hlongest
  simp only [deriveWalkLayout]
  cases hloop : (walkEdges document).find? fun edge => edge.drawable && edge.edge.from_ == edge.edge.to_ with
  | some selfLoop =>
    -- a self-loop is a cycle of one edge
    have hmem := List.mem_of_find?_eq_some hloop
    have hself := List.find?_some hloop
    rw [Bool.and_eq_true, beq_iff_eq] at hself
    obtain ⟨hfrom, hto⟩ := (walkEdges_drawable hmem).mp hself.1
    have hcycle : document.Feeds selfLoop.edge.from_ selfLoop.edge.from_ :=
      ⟨selfLoop.edge, walkEdges_edge document ▸ List.mem_map_of_mem hmem, rfl, hself.2.symm, hfrom, hfrom⟩
    refine ⟨_, rfl, ⟨?_, fun hacyclic => absurd (.single hcycle) (hacyclic _)⟩, ?_⟩
    · rintro ⟨shape, hshape⟩
      cases hshape
    · rintro shape hshape
      cases hshape
  | none =>
    simp only [hw, Option.bind_eq_bind, Option.bind_some]
    by_cases hunplaced : (document.ids.filter fun id => id ∉ w.placed) = []
    · have hall : ∀ id ∈ document.ids, id ∈ w.placed := by
        intro id hid
        have := List.filter_eq_nil_iff.mp hunplaced id hid
        simpa using this
      have hgreatest := hlongest hall
      have hlayers := lt_depthOf hne (Layers.exists_label (r := document.Feeds)
        (fun {u v} huv => mem_ids.mpr huv.choose_spec.2.2.2.1) hgreatest)
      refine ⟨.drawn (shapeOf document (nodesInWalkOrder coverage) fun id => (w.layer id).getD 0), ?_, ?_, ?_⟩
      · rw [if_neg (not_not_intro hunplaced)]
        rfl
      · exact ⟨fun _ => hplaced.mp hall, fun _ => ⟨_, rfl⟩⟩
      · intro shape hshape
        cases hshape
        exact laidOut_shapeOf hnodup hlayers rfl hgreatest
    · refine ⟨_, by rw [if_pos hunplaced]; rfl, ⟨?_, fun hacyclic => ?_⟩, ?_⟩
      · rintro ⟨shape, hshape⟩
        cases hshape
      · refine absurd (List.filter_eq_nil_iff.mpr fun id hid => ?_) hunplaced
        simpa using hplaced.mpr hacyclic id hid
      · rintro shape hshape
        cases hshape


namespace Sample

/-- Two nodes whose ids are array indices, named in the text the other way round than `Object.keys` lists them. -/
def text : Units := wordText "\x7b\"nodes\":\x7b\"2\":\x7b\x7d,\"1\":\x7b\x7d\x7d,\"edges\":[]\x7d"

def document : ReadGraphDocument := ⟨[(wordText "2", ⟨none, none⟩), (wordText "1", ⟨none, none⟩)], [], none⟩

def node (id : Units) (column : Nat) : WalkNode := ⟨id, none, none, 0, column, false, false⟩

def shape : WalkShape := ⟨[node (wordText "1") 0, node (wordText "2") 1], [], 2, 1, none, false⟩

theorem text_document : readGraphDocument DocumentText.Sample.engine text = .ok document := by decide +kernel

theorem document_shape : deriveWalkLayout document none = some (.drawn shape) := by decide +kernel

end Sample

theorem deriveWalkLayout_sample : ∃ layout, deriveWalkLayout Sample.document none = some layout ∧
    ((∃ shape, layout = .drawn shape) ↔ Layers.Acyclic Sample.document.Feeds) ∧
    ∀ shape, layout = .drawn shape → LaidOut Sample.document.ids Sample.document none shape :=
  deriveWalkLayout_layers Sample.text_document none

/-- Ids that are array indices do not stand in the order of the text. -/
theorem walk_not_in_text_order : ¬ ∀ (text : Units) (document : ReadGraphDocument) (coverage : Option (List Probe))
    (shape : WalkShape), readGraphDocument DocumentText.Sample.engine text = .ok document →
    deriveWalkLayout document coverage = some (.drawn shape) → LaidOut document.declared document coverage shape := by
  intro h
  have hrow := (h _ _ _ _ Sample.text_document Sample.document_shape).ordered 0
  revert hrow
  decide +kernel

end GraphDocument

end Desk
