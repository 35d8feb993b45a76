import PackedGraph.Block.Error

/-!
# Visits

A visit hands the elements of a sequence to a consumer, one after another. The consumer turns its
state into a new one and says whether it wants another element. The reader of the sequence goes
through the visit as a value of its own, since it is left wherever the visit ended.
-/

namespace PackedGraph

/-- What a consumer makes of an element. -/
inductive Response (σ : Type) where
  | more (state : σ)
  | enough (state : σ)
  | broken (fault : Fault)

/-- The end of a visit: the reader, the state of the consumer, and whether all went well. -/
structure Visit (ρ σ : Type) where
  reader : ρ
  state : σ
  outcome : Except ReadError Unit

namespace Visit

variable {ρ ρ' σ : Type}

def mapReader (f : ρ → ρ') (visit : Visit ρ σ) : Visit ρ' σ :=
  ⟨f visit.reader, visit.state, visit.outcome⟩

/-- The state of the consumer, unless the visit failed. -/
def result (visit : Visit ρ σ) : Except ReadError σ := visit.outcome.map fun _ ↦ visit.state

end Visit

end PackedGraph
