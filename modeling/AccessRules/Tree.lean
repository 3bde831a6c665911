/-! Labelled trees with ordered children. A pass over a tree relabels each node from its label and
from whether it has children; such passes compose node by node. -/
namespace AccessRules

inductive Tree (α : Type) where
  | node (label : α) (children : List (Tree α))
deriving Repr

namespace Tree
variable {α β γ : Type}

def label : Tree α → α
  | .node a _ => a

def children : Tree α → List (Tree α)
  | .node _ ts => ts

@[simp] theorem label_node (a : α) (ts : List (Tree α)) : (node a ts).label = a := rfl
@[simp] theorem children_node (a : α) (ts : List (Tree α)) : (node a ts).children = ts := rfl

/-- What holds of a node whenever it holds of its children holds of every tree. -/
@[elab_as_elim, induction_eliminator]
theorem induct {motive : Tree α → Prop}
    (node : ∀ a ts, (∀ t ∈ ts, motive t) → motive (.node a ts)) : (t : Tree α) → motive t
  | .node a ts => node a ts fun t _ => induct node t

def isInner (t : Tree α) : Bool := !t.children.isEmpty

mutual

/-- Relabels every node by a function of its label and of whether it has children. -/
def relabel (f : Bool → α → β) : Tree α → Tree β
  | .node a ts => .node (f (!ts.isEmpty) a) (relabelAll f ts)

def relabelAll (f : Bool → α → β) : List (Tree α) → List (Tree β)
  | [] => []
  | t :: ts => relabel f t :: relabelAll f ts

end

@[simp] theorem relabelAll_eq_map (f : Bool → α → β) (ts : List (Tree α)) :
    relabelAll f ts = ts.map (relabel f) := by
  induction ts with
  | nil => rfl
  | cons t ts ih => simp [relabelAll, ih]

@[simp] theorem relabel_node (f : Bool → α → β) (a : α) (ts : List (Tree α)) :
    relabel f (node a ts) = node (f (!ts.isEmpty) a) (ts.map (relabel f)) := by
  simp [relabel]

def map (f : α → β) : Tree α → Tree β := relabel fun _ => f

@[simp] theorem map_node (f : α → β) (a : α) (ts : List (Tree α)) :
    map f (node a ts) = node (f a) (ts.map (map f)) := by
  simp only [map, relabel_node]

mutual

/-- Two passes in a row are one pass, because relabelling keeps the shape of the tree. -/
theorem relabel_relabel (f : Bool → α → β) (g : Bool → β → γ) :
    (t : Tree α) → relabel g (relabel f t) = relabel (fun inner a => g inner (f inner a)) t
  | .node a ts => by
    have h := relabelAll_relabelAll f g ts
    simp only [relabelAll_eq_map] at h
    simp [h]

theorem relabelAll_relabelAll (f : Bool → α → β) (g : Bool → β → γ) :
    (ts : List (Tree α)) →
      relabelAll g (relabelAll f ts) = relabelAll (fun inner a => g inner (f inner a)) ts
  | [] => rfl
  | t :: ts => by
    rw [relabelAll, relabelAll, relabelAll, relabel_relabel f g t, relabelAll_relabelAll f g ts]

end

def push : Tree α → Tree α → Tree α
  | .node a ts, t => .node a (ts ++ [t])

def mapLabel (f : α → α) : Tree α → Tree α
  | .node a ts => .node (f a) ts

mutual

/-- The labels of a tree, a node before its children. -/
def labels : Tree α → List α
  | .node a ts => a :: labelsAll ts

def labelsAll : List (Tree α) → List α
  | [] => []
  | t :: ts => labels t ++ labelsAll ts

end

@[simp] theorem labelsAll_eq_flatMap (ts : List (Tree α)) : labelsAll ts = ts.flatMap labels := by
  induction ts with
  | nil => rfl
  | cons t ts ih => simp [labelsAll, ih]

@[simp] theorem labels_node (a : α) (ts : List (Tree α)) :
    labels (node a ts) = a :: ts.flatMap labels := by
  simp [labels]

theorem mem_labels_node {a b : α} {ts : List (Tree α)} {t : Tree α} (ht : t ∈ ts)
    (hb : b ∈ t.labels) : b ∈ (node a ts).labels := by
  rw [labels_node]
  exact List.mem_cons_of_mem a (List.mem_flatMap.2 ⟨t, ht, hb⟩)

end Tree
end AccessRules
