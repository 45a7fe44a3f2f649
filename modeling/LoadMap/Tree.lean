/-! Trees with any number of branches. -/
namespace LoadMap

inductive Tree (α : Type)
  | node (value : α) (branches : List (Tree α))
  deriving Inhabited

namespace Tree

variable {α β : Type}

def value : Tree α → α
  | node value _ => value

def branches : Tree α → List (Tree α)
  | node _ branches => branches

mutual
def map (change : α → β) : Tree α → Tree β
  | node value branches => node (change value) (mapAll change branches)

def mapAll (change : α → β) : List (Tree α) → List (Tree β)
  | [] => []
  | tree :: rest => map change tree :: mapAll change rest
end

mutual
def preorder (depth : Nat) : Tree α → List (Nat × α)
  | node value branches => (depth,value) :: preorderAll (depth + 1) branches

def preorderAll (depth : Nat) : List (Tree α) → List (Nat × α)
  | [] => []
  | tree :: rest => preorder depth tree ++ preorderAll depth rest
end

end Tree
end LoadMap
