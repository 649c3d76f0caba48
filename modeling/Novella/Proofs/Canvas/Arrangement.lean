import Mathlib.Algebra.Order.Ring.Defs
import Mathlib.Data.List.Sort
import Mathlib.Data.Prod.Lex
import Novella.Canvas.Arrangement
import Novella.Proofs.Decimal.Bounds
import Novella.Proofs.Graph.Layers

/-!
# The grid of an arranged canvas

The nodes of a column are stacked from the top down, and the row of a node is its place in the stack.
So the rows of a column are counted without a gap and keep the order of the heights, no two nodes
share a column and a row, and edges that lie on no cycle lead to the right. Arranging the columns one
after the other comes to the same as arranging all at once. Where the heights of further rows are
further down, the stacks of an arranged canvas are those that it was arranged by, so arranging it again
changes nothing (`arrange_grid`).
-/

namespace Novella.Canvas

/-- The node at a column and a row. -/
def Node.put (p : Placement) (column row : Nat) (n : Node) : Node :=
  { n with
    x := p.startX + .ofNat column * p.columnSpacing
    y := p.startY + .ofNat row * p.rowSpacing }

namespace CanvasGraph

variable {κ : Type} [LinearOrder κ]

/-- The column of a node is its layer. -/
def column (g : CanvasGraph) (id : Nat) : Nat := (g.graph.layers.get? id).getD 0

/-- How high a node stands, in the total order of numbers. -/
def height (g : CanvasGraph) (id : Nat) : Int := ((g.node? id).map (·.y.orderKey)).getD 0

/-- The nodes of a column from the top down if the nodes stand at the given heights. -/
def stack (g : CanvasGraph) (height : Nat → κ) (column : Nat) : List Nat :=
  (g.graph.ids.filter (g.column · = column)).mergeSort fun i j =>
    toLex (height i, i) ≤ toLex (height j, j)

/-- The place of a node in the stack of its column. -/
def row (g : CanvasGraph) (height : Nat → κ) (id : Nat) : Nat :=
  (g.stack height (g.column id)).idxOf id

/-- The node at the column and the row of its id. -/
def place (p : Placement) (g : CanvasGraph) (id : Nat) : Node → Node :=
  .put p (g.column id) (g.row g.height id)

/-- The heights of the nodes once they are arranged, in exact arithmetic. -/
def levels [Ring κ] (g : CanvasGraph) (start spacing : κ) (height : Nat → κ) (id : Nat) : κ :=
  start + g.row height id * spacing

/-- Arranges the columns one after the other, each from the top down, as the nodes stood before. -/
def settle (p : Placement) (g : CanvasGraph) : CanvasGraph :=
  let columns := ascending (g.graph.ids.map g.column)
  { g with graph := columns.foldl (fun graph column =>
      (g.stack g.height column).zipIdx.foldl
        (fun graph (id, row) => graph.modify id (.put p column row)) graph) g.graph }

end CanvasGraph

end Novella.Canvas

namespace Novella

/-- The height of the row is computed without rounding. -/
def Placement.ExactAt (p : Placement) (row : Nat) : Prop :=
  (p.startY + .ofNat row * p.rowSpacing).signedScaled =
    p.startY.signedScaled + row * p.rowSpacing.signedScaled

end Novella

namespace Novella.Proofs

open Canvas Canvas.CanvasGraph

/-! ## Places in an ordered list -/

section Lists

variable {α : Type} [LinearOrder α] {f : Nat → α} {l : List Nat}

/-- As many elements are before an element of an ordered list as its place says. -/
lemma countP_eq_idxOf (h : l.Pairwise fun i j => f i < f j) {i : Nat} (hi : i ∈ l) :
    l.countP (f · < f i) = l.idxOf i := by
  induction l with
  | nil => cases hi
  | cons j l ih =>
    obtain ⟨hhead, htail⟩ := List.pairwise_cons.1 h
    rcases eq_or_ne j i with rfl | hne
    · have hnone : ∀ k ∈ j :: l, ¬decide (f k < f j) = true := by
        intro k hk
        rw [decide_eq_true_eq]
        rcases List.mem_cons.1 hk with rfl | hk
        · exact lt_irrefl _
        · exact (hhead k hk).asymm
      rw [List.countP_eq_zero.2 hnone, List.idxOf_cons_self]
    · have hi : i ∈ l := (List.mem_cons.1 hi).resolve_left hne.symm
      rw [List.countP_cons, if_pos (decide_eq_true (hhead i hi)), ih htail hi,
        List.idxOf_cons_ne _ hne]

lemma idxOf_lt_idxOf_iff (h : l.Pairwise fun i j => f i < f j) {i j : Nat} (hi : i ∈ l) (hj : j ∈ l) :
    l.idxOf i < l.idxOf j ↔ f i < f j := by
  have hlt : ∀ {i j}, i ∈ l → j ∈ l → l.idxOf i < l.idxOf j → f i < f j := by
    intro i j hi hj hlt
    have hpair := List.pairwise_iff_getElem.1 h _ _ (List.idxOf_lt_length_of_mem hi)
      (List.idxOf_lt_length_of_mem hj) hlt
    rwa [List.getElem_idxOf, List.getElem_idxOf] at hpair
  refine ⟨hlt hi hj, fun hf => ?_⟩
  rcases lt_trichotomy (l.idxOf i) (l.idxOf j) with hidx | hidx | hidx
  · exact hidx
  · obtain rfl := (List.idxOf_inj hi).1 hidx
    exact absurd hf (lt_irrefl _)
  · exact absurd hf (hlt hj hi hidx).asymm

end Lists

/-! ## Stacks -/

section Stacks

variable {κ κ' : Type} [LinearOrder κ] [LinearOrder κ'] {g : CanvasGraph} {height : Nat → κ}
  {column i j : Nat}

lemma stack_perm (g : CanvasGraph) (height : Nat → κ) (column : Nat) :
    (g.stack height column).Perm (g.graph.ids.filter (g.column · = column)) :=
  List.mergeSort_perm _ _

lemma mem_stack_iff : i ∈ g.stack height column ↔ g.graph.contains i = true ∧ g.column i = column := by
  rw [(stack_perm g height column).mem_iff, List.mem_filter, mem_ids_iff, decide_eq_true_eq]

lemma nodup_stack : (g.stack height column).Nodup :=
  (stack_perm g height column).nodup_iff.2 ((nodup_ids g.graph).filter _)

/-- A stack is ordered by height, and by id where nodes stand at one height. -/
lemma stack_pairwise : (g.stack height column).Pairwise fun i j =>
    toLex (height i, i) < toLex (height j, j) := by
  have hle : (g.stack height column).Pairwise fun i j => toLex (height i, i) ≤ toLex (height j, j) := by
    refine (List.pairwise_mergeSort (fun i j k hij hjk => ?_) (fun i j => ?_) _).imp
      fun h => of_decide_eq_true h
    · exact decide_eq_true ((of_decide_eq_true hij).trans (of_decide_eq_true hjk))
    · rw [Bool.or_eq_true, decide_eq_true_eq, decide_eq_true_eq]
      exact le_total _ _
  refine (hle.and nodup_stack).imp fun ⟨hle, hne⟩ => hle.lt_of_ne fun heq => hne ?_
  exact (Prod.mk.inj (toLex.injective heq)).2

lemma of_getElem?_stack {r : Nat} (h : (g.stack height column)[r]? = some i) :
    g.column i = column ∧ g.row height i = r := by
  obtain ⟨hr, rfl⟩ := List.getElem?_eq_some_iff.1 h
  have hcolumn := (mem_stack_iff.1 (List.getElem_mem hr)).2
  refine ⟨hcolumn, ?_⟩
  rw [row, hcolumn, nodup_stack.idxOf_getElem]

/-- The nodes of a column are numbered without a gap. -/
lemma map_row_stack (g : CanvasGraph) (height : Nat → κ) (column : Nat) :
    (g.stack height column).map (g.row height) = List.range (g.stack height column).length := by
  refine List.ext_getElem (by simp) fun r hr _ => ?_
  rw [List.length_map] at hr
  rw [List.getElem_map, List.getElem_range]
  exact (of_getElem?_stack (List.getElem?_eq_getElem hr)).2

lemma row_lt_row_iff (hi : g.graph.contains i = true) (hj : g.graph.contains j = true)
    (h : g.column i = g.column j) :
    g.row height i < g.row height j ↔ toLex (height i, i) < toLex (height j, j) := by
  rw [row, row, h]
  exact idxOf_lt_idxOf_iff (f := fun i => toLex (height i, i)) stack_pairwise
    (mem_stack_iff.2 ⟨hi, h⟩) (mem_stack_iff.2 ⟨hj, rfl⟩)

lemma row_injective (hi : g.graph.contains i = true) (h : g.column i = g.column j)
    (hrow : g.row height i = g.row height j) : i = j := by
  rw [row, row, h] at hrow
  exact (List.idxOf_inj (mem_stack_iff.2 ⟨hi, h⟩)).1 hrow

lemma row_lt_size (hi : g.graph.contains i = true) : g.row height i < g.graph.size := by
  have hmem : i ∈ g.stack height (g.column i) := mem_stack_iff.2 ⟨hi, rfl⟩
  calc g.row height i < (g.stack height (g.column i)).length := List.idxOf_lt_length_of_mem hmem
    _ = (g.graph.ids.filter (g.column · = g.column i)).length := (stack_perm _ _ _).length_eq
    _ ≤ g.graph.ids.length := List.length_filter_le _ _
    _ = g.graph.size := length_ids _

/-- Heights that order each column in the same way have the same stacks. -/
lemma stack_eq {height' : Nat → κ'} (h : ∀ i j, g.graph.contains i = true →
      g.graph.contains j = true → g.column i = g.column j →
      toLex (height i, i) < toLex (height j, j) → toLex (height' i, i) < toLex (height' j, j)) :
    g.stack height' column = g.stack height column := by
  have hperm : (g.stack height' column).Perm (g.stack height column) :=
    (stack_perm g height' column).trans (stack_perm g height column).symm
  have hpairwise : (g.stack height column).Pairwise fun i j =>
      toLex (height' i, i) < toLex (height' j, j) := by
    refine stack_pairwise.imp_of_mem fun hi hj hlt => ?_
    obtain ⟨hlive, hcolumn⟩ := mem_stack_iff.1 hi
    obtain ⟨hlive', hcolumn'⟩ := mem_stack_iff.1 hj
    exact h _ _ hlive hlive' (hcolumn.trans hcolumn'.symm) hlt
  exact hperm.eq_of_pairwise (fun _ _ _ _ hij hji => absurd hij hji.asymm) stack_pairwise hpairwise

/-- Where further rows are further down, the rows of the nodes stay what they are. -/
lemma row_eq_of_lt {height' : Nat → κ'} (h : ∀ i j, g.graph.contains i = true →
      g.graph.contains j = true → g.row height i < g.row height j → height' i < height' j) :
    g.row height' = g.row height := by
  funext i
  refine congrArg (List.idxOf i) (stack_eq fun i j hi hj hcolumn hlt => ?_)
  have hrow := (row_lt_row_iff hi hj hcolumn).2 hlt
  exact Prod.Lex.toLex_lt_toLex.2 (.inl (h i j hi hj hrow))

end Stacks

/-! ## Writing to nodes -/

section Nodes

variable {ν ε : Type} {g : PortGraph ν ε}

lemma mapNodes_congr {f f' : Nat → ν → ν} (h : ∀ id n, g.node? id = some n → f id n = f' id n) :
    g.mapNodes f = g.mapNodes f' := by
  have hnodes : g.nodes.map f = g.nodes.map f' := by
    refine dict_ext (List.map_congr_left fun e he => Prod.ext rfl ?_)
    exact h e.1 e.2 ((mem_entries_iff _ _ _).1 he)
  rw [PortGraph.mapNodes, hnodes, PortGraph.mapNodes]

lemma mapNodes_mapNodes (g : PortGraph ν ε) (f f' : Nat → ν → ν) :
    (g.mapNodes f).mapNodes f' = g.mapNodes fun id n => f' id (f id n) := by
  have hnodes : (g.nodes.map f).map f' = g.nodes.map fun id n => f' id (f id n) :=
    dict_ext (by simp [Dict.map])
  rw [PortGraph.mapNodes, PortGraph.mapNodes, hnodes, PortGraph.mapNodes]

lemma mapNodes_self (g : PortGraph ν ε) : (g.mapNodes fun _ n => n) = g := by
  have hnodes : (g.nodes.map fun _ n => n) = g.nodes := dict_ext (by simp [Dict.map])
  rw [PortGraph.mapNodes, hnodes]

/-- Writing to nodes one after the other, where it does no harm to write to a node again. -/
lemma foldl_modify {f : Nat → ν → ν} (hf : ∀ id n, f id (f id n) = f id n) (ids : List Nat)
    (g : PortGraph ν ε) : ids.foldl (fun g id => g.modify id (f id)) g =
      g.mapNodes fun id n => if id ∈ ids then f id n else n := by
  induction ids generalizing g with
  | nil => simp [mapNodes_self]
  | cons id ids ih =>
    have hmodify : g.modify id (f id) =
        g.mapNodes fun id' n => if compare id id' = .eq then f id n else n := rfl
    rw [List.foldl_cons, ih, hmodify, mapNodes_mapNodes]
    congr 1
    funext id' n
    by_cases heq : id' = id
    · subst heq
      by_cases hmem : id' ∈ ids <;> simp [hmem, hf]
    · simp [heq, Ne.symm heq]

lemma ids_mapNodes (g : PortGraph ν ε) (f : Nat → ν → ν) : (g.mapNodes f).ids = g.ids := by
  simp [PortGraph.ids, PortGraph.mapNodes, Dict.keys, Dict.map]

/-- The layers of a graph depend on its ids and connections only. -/
lemma layers_mapNodes (g : PortGraph ν ε) (f : Nat → ν → ν) : (g.mapNodes f).layers = g.layers := by
  have hsize : (g.mapNodes f).size = g.size := by
    rw [← length_ids, ids_mapNodes, length_ids]
  have horder : (g.mapNodes f).topologicalOrder = g.topologicalOrder := by
    rw [PortGraph.topologicalOrder, ids_mapNodes, hsize]
    rfl
  rw [PortGraph.layers, horder]
  rfl

end Nodes

/-! ## Arranging -/

section Arranging

variable {p : Placement} {g : CanvasGraph}

lemma height_eq {id : Nat} {n : Canvas.Node} (h : g.node? id = some n) :
    g.height id = n.y.orderKey := by
  rw [height, h]
  rfl

lemma isAbove_iff {a b : Cell} : a.isAbove b = true ↔
    a.column = b.column ∧ (a.height < b.height ∨ a.height = b.height ∧ a.id < b.id) := by
  simp [Cell.isAbove]

/-- As many nodes of a column come before a node as its row says. -/
lemma cellRow_eq {id : Nat} {n : Canvas.Node} (h : g.node? id = some n) :
    Cell.row (g.cells g.graph.layers) (.ofNode g.graph.layers id n) = g.row g.height id := by
  have hmem : id ∈ g.stack g.height (g.column id) :=
    mem_stack_iff.2 ⟨(contains_iff_node? id).2 ⟨n, h⟩, rfl⟩
  rw [row, ← countP_eq_idxOf (f := fun i => toLex (g.height i, i)) stack_pairwise hmem,
    (stack_perm g g.height _).countP_eq, List.countP_filter, Cell.row, cells, List.countP_map,
    PortGraph.ids, Dict.keys, List.countP_map]
  refine List.countP_congr fun e he => ?_
  have he : g.node? e.1 = some e.2 := (mem_entries_iff _ _ _).1 he
  rw [Function.comp, isAbove_iff, Function.comp, Bool.and_eq_true, decide_eq_true_eq,
    decide_eq_true_eq, Prod.Lex.toLex_lt_toLex, height_eq h, height_eq he, and_comm]
  rfl

lemma arrange_eq (p : Placement) (g : CanvasGraph) :
    g.arrange p = { g with graph := g.graph.mapNodes (g.place p) } := by
  have hplace : ∀ id n, g.graph.node? id = some n →
      n.put p (g.column id) (Cell.row (g.cells g.graph.layers) (.ofNode g.graph.layers id n)) =
        g.place p id n := fun id n hn => by rw [cellRow_eq hn, place]
  rw [← mapNodes_congr hplace]
  rfl

/-- Arranging a column from the top down puts each of its nodes at the column and the row of the node. -/
lemma foldl_stack (p : Placement) (g : CanvasGraph) (graph : PortGraph Canvas.Node String)
    (column : Nat) :
    (g.stack g.height column).zipIdx.foldl (fun graph e => graph.modify e.1 (.put p column e.2)) graph =
      (g.stack g.height column).foldl (fun graph id => graph.modify id (g.place p id)) graph := by
  have hput : ∀ e ∈ (g.stack g.height column).zipIdx, Node.put p column e.2 = g.place p e.1 := by
    intro e he
    obtain ⟨hcolumn, hrow⟩ := of_getElem?_stack (List.mem_zipIdx_iff_getElem?.1 he)
    rw [place, hcolumn, hrow]
  conv_rhs => rw [← List.zipIdx_map_fst 0 (g.stack g.height column), List.foldl_map]
  exact List.foldl_ext _ _ _ fun graph e he => by rw [hput e he]

/-- Arranging all nodes at once is arranging the columns one after the other. -/
lemma arrange_eq_settle (p : Placement) (g : CanvasGraph) : g.arrange p = g.settle p := by
  have hall : ∀ id n, g.graph.node? id = some n → g.place p id n =
      if id ∈ (ascending (g.graph.ids.map g.column)).flatMap (g.stack g.height) then g.place p id n
        else n := by
    intro id n hn
    have hlive := (contains_iff_node? id).2 ⟨n, hn⟩
    rw [if_pos]
    exact List.mem_flatMap.2 ⟨g.column id, mem_ascending.2
      (List.mem_map_of_mem (mem_ids_iff.2 hlive)), mem_stack_iff.2 ⟨hlive, rfl⟩⟩
  rw [arrange_eq, settle, mapNodes_congr hall, ← foldl_modify (f := g.place p) (fun _ _ => rfl),
    List.foldl_flatMap]
  simp only [foldl_stack]

lemma column_arrange (p : Placement) (g : CanvasGraph) : (g.arrange p).column = g.column := by
  funext id
  rw [column, arrange_eq, layers_mapNodes, column]

lemma height_arrange {id : Nat} (h : g.graph.contains id = true) : (g.arrange p).height id =
    (p.startY + .ofNat (g.row g.height id) * p.rowSpacing).orderKey := by
  obtain ⟨n, hn⟩ := (contains_iff_node? id).1 h
  have hplaced : (g.arrange p).node? id = some (g.place p id n) := by
    rw [CanvasGraph.node?, arrange_eq, node?_mapNodes, hn, Option.map_some]
  rw [height_eq hplaced, place, Node.put]

lemma row_arrange {κ : Type} [LinearOrder κ] (height : Nat → κ) :
    (g.arrange p).row height = g.row height := by
  have hids : (g.arrange p).graph.ids = g.graph.ids := by
    rw [arrange_eq, ids_mapNodes]
  funext id
  rw [row, row, stack, stack, column_arrange, hids]

/-- Where no height is rounded, an arranged canvas stays as it is when it is arranged again. -/
lemma arrange_arrange (hexact : ∀ id, g.graph.contains id = true → p.ExactAt (g.row g.height id))
    (hpos : 0 < p.rowSpacing.signedScaled) : (g.arrange p).arrange p = g.arrange p := by
  have hrows : (g.arrange p).row (g.arrange p).height = g.row g.height := by
    rw [row_arrange]
    refine row_eq_of_lt fun i j hi hj hrow => ?_
    rw [height_arrange hi, height_arrange hj]
    refine orderKey_lt_of_signedScaled_lt ?_
    rw [hexact i hi, hexact j hj]
    exact Int.add_lt_add_left (Int.mul_lt_mul_of_pos_right (Int.ofNat_lt.2 hrow) hpos) _
  have hplace : (g.arrange p).place p = g.place p := by
    funext id
    rw [place, column_arrange, hrows, place]
  rw [arrange_eq p (g.arrange p), hplace, arrange_eq, mapNodes_mapNodes]
  rfl

lemma levels_levels {κ : Type} [Ring κ] [LinearOrder κ] [IsStrictOrderedRing κ] (start : κ)
    {spacing : κ} (hpos : 0 < spacing) (height : Nat → κ) :
    g.levels start spacing (g.levels start spacing height) = g.levels start spacing height := by
  have hrows : g.row (g.levels start spacing height) = g.row height := by
    refine row_eq_of_lt fun i j _ _ hrow => ?_
    have hcast : (g.row height i : κ) < g.row height j := Nat.cast_lt.2 hrow
    exact add_lt_add_right (mul_lt_mul_of_pos_right hcast hpos) start
  funext id
  rw [levels, hrows, levels]

/-- Heights that are whole numbers of at most fifty-three bits are not rounded. -/
lemma exactAt_of_whole (start spacing : Nat) {row : Nat} (hstart : p.startY = .ofNat start)
    (hspacing : p.rowSpacing = .ofNat spacing) (hrow : row < 2 ^ 53) (hlow : spacing < 2 ^ 53)
    (h : start + row * spacing < 2 ^ 53) : p.ExactAt row := by
  have hproduct : row * spacing < 2 ^ 53 := (Nat.le_add_left _ _).trans_lt h
  have hheight : start < 2 ^ 53 := (Nat.le_add_right _ _).trans_lt h
  rw [Placement.ExactAt, hstart, hspacing, ofNat_mul hrow hlow, ofNat_add hheight hproduct,
    signedScaled_ofNat h, signedScaled_ofNat hheight, signedScaled_ofNat hlow]
  push_cast
  ring

lemma exactAt_default {row : Nat} (h : row < 2 ^ 46) : Placement.ExactAt {} row := by
  have hheight : 100 + row * 120 < 2 ^ 53 := by omega
  exact exactAt_of_whole 100 120 (by decide +kernel) (by decide +kernel) (h.trans (by decide))
    (by decide) hheight

/-- By default heights are not rounded, so a canvas is arranged once for all. -/
lemma arrange_arrange_default (h : g.graph.size ≤ 2 ^ 46) :
    (g.arrange {}).arrange {} = g.arrange {} :=
  arrange_arrange (fun _ hlive => exactAt_default ((row_lt_size hlive).trans_le h)) (by decide +kernel)

/-- Edges that lie on no cycle lead to a further column. -/
lemma column_lt (h : Wired g.graph) {u v : Nat} (hstep : Joins g.graph u v)
    (hback : ¬LeadsTo g.graph v u) : g.column u < g.column v := by
  obtain ⟨a, b, ha, hb, hlt⟩ := layers_lt h hstep hback
  rw [column, column, ha, hb]
  exact hlt

/-- Arranging puts the nodes at a grid, one column after the other, and changes nothing else: the column
of a node is its layer, and the rows of a column are counted from the top down without a gap, by the
heights at which the nodes stood and then by id. So no two nodes share a column and a row, and without
cycles edges lead to further columns. Arranging once more changes nothing where no height is rounded, as
by default on all canvases of at most `2 ^ 46` nodes, and so it never changes a height in exact
arithmetic. -/
theorem arrange_grid (g : CanvasGraph) (p : Placement) (h : Wired g.graph) :
    (g.arrange p = { g with graph := g.graph.mapNodes (g.place p) } ∧ g.arrange p = g.settle p ∧
    ∀ id, g.graph.contains id = true → g.graph.layers.get? id = some (g.column id)) ∧
    (∀ c, ((g.graph.ids.filter (g.column · = c)).map (g.row g.height)).Perm
      (List.range (g.graph.ids.countP (g.column · = c)))) ∧
    (∀ i j, g.graph.contains i = true → g.graph.contains j = true → g.column i = g.column j →
      (g.row g.height i < g.row g.height j ↔
        g.height i < g.height j ∨ g.height i = g.height j ∧ i < j) ∧
      (g.row g.height i = g.row g.height j → i = j)) ∧
    ((∀ i, ¬OnCycle g.graph i) → ∀ u v, Joins g.graph u v → g.column u < g.column v) ∧
    (0 < p.rowSpacing.signedScaled →
      (∀ id, g.graph.contains id = true → p.ExactAt (g.row g.height id)) →
      (g.arrange p).arrange p = g.arrange p) ∧
    (g.graph.size ≤ 2 ^ 46 → (g.arrange {}).arrange {} = g.arrange {}) ∧
    ∀ (κ : Type) [Ring κ] [LinearOrder κ] [IsStrictOrderedRing κ] (start spacing : κ), 0 < spacing →
      ∀ height, g.levels start spacing (g.levels start spacing height) =
        g.levels start spacing height := by
  refine ⟨⟨arrange_eq p g, arrange_eq_settle p g, fun id hlive => ?_⟩, fun c => ?_,
    fun i j hi hj hcolumn => ⟨?_, row_injective hi hcolumn⟩, fun hnone u v hstep => ?_,
    fun hpos hexact => arrange_arrange hexact hpos, arrange_arrange_default,
    fun κ _ _ _ start spacing hpos height => levels_levels start hpos height⟩
  · obtain ⟨layer, hlayer⟩ := (mem_layers_iff h).2 hlive
    rw [column, hlayer, Option.getD_some]
  · have hperm := (stack_perm g g.height c).symm
    rw [List.countP_eq_length_filter, hperm.length_eq, ← map_row_stack]
    exact hperm.map _
  · exact (row_lt_row_iff hi hj hcolumn).trans Prod.Lex.toLex_lt_toLex
  · exact column_lt h hstep fun hback => hnone u (.head' hstep hback)

/-- Three ways on from a node. Of the nodes that they lead to two stand at one height, above the
third. -/
def fanned : CanvasGraph where
  graph :=
    { nodes := .ofList [(1, {}), (2, { id := 2, y := 50 }), (3, { id := 3, y := 10 }),
        (4, { id := 4, y := 10 })]
      edges := [⟨.output 1 "left", .input 2 "in", ""⟩, ⟨.output 1 "right", .input 3 "in", ""⟩,
        ⟨.output 1 "next", .input 4 "in", ""⟩]
      nextId := 5 }

theorem arrange_grid_of_fanned : Wired fanned.graph ∧ fanned.column 1 < fanned.column 4 ∧
    fanned.row fanned.height 3 < fanned.row fanned.height 4 ∧
    fanned.row fanned.height 4 < fanned.row fanned.height 2 ∧
    (fanned.arrange {}).arrange {} = fanned.arrange {} := by
  have hwired : Wired fanned.graph := by decide
  have hnone : ∀ i, ¬OnCycle fanned.graph i := (cycles_eq_nil_iff hwired).1 (by decide)
  obtain ⟨-, -, hrows, hcolumns, htwice, -⟩ := arrange_grid fanned {} hwired
  refine ⟨hwired, hcolumns hnone 1 4 ⟨_, .tail _ (.tail _ (.head _)), rfl, rfl⟩,
    ((hrows 3 4 (by decide) (by decide) (by decide)).1).2 (by decide +kernel),
    ((hrows 4 2 (by decide) (by decide) (by decide)).1).2 (by decide +kernel),
    htwice (by decide +kernel) fun id hlive => ?_⟩
  have hrow : fanned.row fanned.height id < 4 := row_lt_size hlive
  exact exactAt_default (hrow.trans (by decide))

end Arranging

end Novella.Proofs
