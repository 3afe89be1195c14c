import Mathlib.Data.List.Basic
import Mathlib.Data.List.Forall2

namespace SingBox.Library.BreadthFirst

variable {ν ε : Type} (edges : ν → List (ε × ν))

def children (node : ν) : List ν := (edges node).map Prod.snd

def level (root : ν) : Nat → List ν
  | 0 => [root]
  | depth + 1 => (level root depth).flatMap (children edges)

-- The nodes down to a depth, level by level.
def order (root : ν) : Nat → List ν
  | 0 => [root]
  | depth + 1 => order root depth ++ level edges root (depth + 1)

-- Behind the root come the children of the nodes, in the nodes' order.
theorem cons_children (root : ν) (depth : Nat) :
    root :: (order edges root depth).flatMap (children edges) = order edges root (depth + 1) := by
  induction depth with
  | zero => rfl
  | succ depth ih =>
      rw [order, List.flatMap_append, ← List.cons_append, ih]
      rfl

theorem order_eq {root : ν} {depth : Nat} (h : level edges root (depth + 1) = []) :
    order edges root depth = root :: (order edges root depth).flatMap (children edges) := by
  rw [cons_children, order, h, List.append_nil]

-- The edges of each node. What an edge leads to is counted on from `start`.
def numbered : Nat → List ν → List (List (ε × Nat))
  | _, [] => []
  | start, node :: rest =>
      ((edges node).map Prod.fst).zipIdx start :: numbered (start + (edges node).length) rest

theorem numbered_length (start : Nat) (nodes : List ν) :
    (numbered edges start nodes).length = nodes.length := by
  induction nodes generalizing start with
  | nil => rfl
  | cons node rest ih => rw [numbered, List.length_cons, List.length_cons, ih]

theorem numbered_getElem? {nodes : List ν} {index : Nat} {node : ν} (start : Nat)
    (h : nodes[index]? = some node) :
    (numbered edges start nodes)[index]? = some (((edges node).map Prod.fst).zipIdx
      (start + ((nodes.take index).flatMap (children edges)).length)) := by
  induction nodes generalizing start index with
  | nil => simp at h
  | cons first rest ih =>
      cases index with
      | zero =>
          obtain rfl : first = node := by simpa using h
          simp [numbered]
      | succ index =>
          have hrest : rest[index]? = some node := by simpa using h
          rw [numbered, List.getElem?_cons_succ, ih _ hrest, List.take_succ_cons,
            List.flatMap_cons, List.length_append, children, List.length_map, Nat.add_assoc]

-- The children of the nodes before a node come before its own.
theorem child_getElem? {root : ν} {nodes : List ν}
    (horder : nodes = root :: nodes.flatMap (children edges)) {index j : Nat} {node child : ν}
    (hnode : nodes[index]? = some node) (hchild : (children edges node)[j]? = some child) :
    nodes[1 + ((nodes.take index).flatMap (children edges)).length + j]? = some child := by
  obtain ⟨hlt, hget⟩ := List.getElem?_eq_some_iff.mp hnode
  have hsplit : nodes.flatMap (children edges) = (nodes.take index).flatMap (children edges) ++
      (children edges node ++ (nodes.drop (index + 1)).flatMap (children edges)) := by
    rw [← List.flatMap_cons, ← List.flatMap_append, ← hget, ← List.drop_eq_getElem_cons hlt,
      List.take_append_drop]
  have hj : j < (children edges node).length := (List.getElem?_eq_some_iff.mp hchild).1
  rw [horder, Nat.add_assoc, Nat.add_comm 1, List.getElem?_cons_succ, ← horder, hsplit,
    List.getElem?_append_right (Nat.le_add_right _ j), Nat.add_sub_cancel_left,
    List.getElem?_append_left hj, hchild]

-- An edge of the node at `index` and its number.
def Links (nodes : List ν) (edge : ε × ν) (entry : ε × Nat) : Prop :=
  entry.1 = edge.1 ∧ nodes[entry.2]? = some edge.2

theorem numbered_links {root : ν} {nodes : List ν}
    (horder : nodes = root :: nodes.flatMap (children edges)) {index : Nat} {node : ν}
    (hnode : nodes[index]? = some node) :
    ∃ entries, (numbered edges 1 nodes)[index]? = some entries ∧
      List.Forall₂ (Links nodes) (edges node) entries := by
  refine ⟨_, numbered_getElem? edges 1 hnode, List.forall₂_iff_get.mpr ⟨by simp, ?_⟩⟩
  intro j hj hentry
  have hchild : (children edges node)[j]? = some ((edges node)[j]).2 := by
    simp [children, hj]
  refine ⟨by simp, ?_⟩
  simpa using child_getElem? edges horder hnode hchild

end SingBox.Library.BreadthFirst
