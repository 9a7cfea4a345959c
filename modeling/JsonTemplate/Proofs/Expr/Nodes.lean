import JsonTemplate.Expr.Basic

namespace JsonTemplate.Expr

variable {α β : Type}

theorem note_map (f : α → β) (e : Expr α) : (e.map f).note = f e.note := by cases e <;> rfl

theorem mapItems_eq_map (f : α → β) (items : List (Expr α)) : mapItems f items = items.map (map f) := by
  induction items with
  | nil => rfl
  | cons item rest ih => exact congrArg (item.map f :: ·) ih

theorem mapEntries_eq_map (f : α → β) (entries : List (String × Expr α)) :
    mapEntries f entries = entries.map fun entry => (entry.1, entry.2.map f) := by
  induction entries with
  | nil => rfl
  | cons entry rest ih => exact congrArg ((entry.1, entry.2.map f) :: ·) ih

theorem erase_array (note : α) (items : List (Expr α)) :
    (array note items).erase = array () (items.map erase) := by
  rw [erase, map, mapItems_eq_map]
  rfl

theorem erase_call (note : α) (callee : Expr α) (args : List (Expr α)) :
    (call note callee args).erase = call () callee.erase (args.map erase) := by
  rw [erase, map, mapItems_eq_map]
  rfl

theorem erase_object (note : α) (entries : List (String × Expr α)) :
    (object note entries).erase = object () (entries.map fun entry => (entry.1, entry.2.erase)) := by
  rw [erase, map, mapEntries_eq_map]
  rfl

-- The parts of an expression, in the order of its source.
def children : Expr α → List (Expr α)
  | null _ | bool .. | number .. | string .. | name .. => []
  | array _ items => items
  | object _ entries => entries.map Prod.snd
  | member _ target _ => [target]
  | index _ target key => [target, key]
  | call _ callee args => callee :: args
  | unary _ _ operand => [operand]
  | binary _ _ lhs rhs => [lhs, rhs]
  | conditional _ test yes no => [test, yes, no]

-- The nodes of an expression are itself and those of its parts.
inductive HasNode : Expr α → Expr α → Prop
  | root {e : Expr α} : HasNode e e
  | inside {e child node : Expr α} (hchild : child ∈ e.children) (hnode : HasNode child node) : HasNode e node

theorem forall_hasNode {P : Expr α → Prop} {e : Expr α} (hroot : P e)
    (hchildren : ∀ child ∈ e.children, ∀ node, child.HasNode node → P node) : ∀ node, e.HasNode node → P node
  | _, .root => hroot
  | node, .inside hchild hnode => hchildren _ hchild node hnode

end JsonTemplate.Expr
