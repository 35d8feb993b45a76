import PackedGraph.View.Basic

/-!
# Enumerating relationships

The relationships of a node are handed to a consumer in the order of their targets, until there are
none left or the consumer has had enough. The view that comes back differs in its cursors only.
-/

namespace PackedGraph

variable {σ : Type}

namespace PackedView

/-- Hands the targets of a node to a consumer. -/
def visit (view : PackedView) (node : Nat) (consume : σ → Nat → Response σ) (state : σ) :
    Visit PackedView σ :=
  match view.topology with
  | none => ⟨view, state, .error (.fault .topologyReleased)⟩
  | some reader =>
    match reader.cursors.lend reader.topology node with
    | .error error => ⟨view, state, .error error⟩
    | .ok lent =>
      (lent.visit reader.topology.block consume state).mapReader fun lent ↦
        { view with topology := some { reader with cursors := reader.cursors.takeBack lent } }

/-- Hands the targets of a node to a consumer, each with its value. Without a relationship property
every target comes with `fallback`. -/
def visitWithValues (view : PackedView) (node : Nat) (fallback : ValueBits)
    (consume : σ → Nat → ValueBits → Response σ) (state : σ) : Visit PackedView σ :=
  if view.hasValues then
    match view.topology, view.values with
    | none, _ => ⟨view, state, .error (.fault .topologyReleased)⟩
    | some _, none => ⟨view, state, .error (.fault .valuesReleased)⟩
    | some reader, some values =>
      match reader.cursors.lend reader.topology node with
      | .error error => ⟨view, state, .error error⟩
      | .ok lent =>
        let keep (lent : LentCursor) : PackedView :=
          { view with topology := some { reader with cursors := reader.cursors.takeBack lent } }
        match values.table.moveTo values.cursor node lent.cursor.remaining with
        | .error error => ⟨keep lent, state, .error error⟩
        | .ok cursor =>
          let visit := lent.visitWithValues cursor reader.topology.block values.table.block
            consume state
          visit.mapReader fun (lent, cursor) ↦
            { keep lent with values := some { values with cursor } }
  else view.visit node (fun state target ↦ consume state target fallback) state

end PackedView

namespace View

/-- Hands the targets of a node to a consumer. -/
def visit : View → Nat → (σ → Nat → Response σ) → σ → Visit View σ
  | packed view, node, consume, state => (view.visit node consume state).mapReader packed
  | filtered inner filter, node, consume, state =>
    match filter.root node with
    | .error fault => ⟨filtered inner filter, state, .error (.fault fault)⟩
    | .ok root =>
      let consumeFiltered (state : σ) (target : Nat) : Response σ :=
        match filter.filtered target with
        | .error fault => .broken fault
        | .ok none => .more state
        | .ok (some target) => consume state target
      (inner.visit root consumeFiltered state).mapReader (filtered · filter)

/-- Hands the targets of a node to a consumer, each with its value. Without a relationship property
every target comes with `fallback`. -/
def visitWithValues :
    View → Nat → ValueBits → (σ → Nat → ValueBits → Response σ) → σ → Visit View σ
  | packed view, node, fallback, consume, state =>
    (view.visitWithValues node fallback consume state).mapReader packed
  | filtered inner filter, node, fallback, consume, state =>
    match filter.root node with
    | .error fault => ⟨filtered inner filter, state, .error (.fault fault)⟩
    | .ok root =>
      let consumeFiltered (state : σ) (target : Nat) (value : ValueBits) : Response σ :=
        match filter.filtered target with
        | .error fault => .broken fault
        | .ok none => .more state
        | .ok (some target) => consume state target value
      (inner.visitWithValues root fallback consumeFiltered state).mapReader (filtered · filter)

/-- Collects targets, in reverse order, up to the `limit`-th one if there is a limit. -/
def collect {α : Type} (limit : Option Nat) (seen : List α) (element : α) : Response (List α) :=
  let seen := element :: seen
  match limit with
  | none => .more seen
  | some limit => if seen.length = limit then .enough seen else .more seen

/-- The targets of a node, up to the `limit`-th one. -/
def relationships (view : View) (node : Nat) (limit : Option Nat) : Visit View (List Nat) :=
  let visit := view.visit node (collect limit) []
  { visit with state := visit.state.reverse }

/-- The targets of a node with their values, up to the `limit`-th one. -/
def relationshipsWithValues (view : View) (node : Nat) (fallback : ValueBits) (limit : Option Nat) :
    Visit View (List (Nat × ValueBits)) :=
  let visit := view.visitWithValues node fallback
    (fun seen target value ↦ collect limit seen (target, value)) []
  { visit with state := visit.state.reverse }

end View

end PackedGraph
