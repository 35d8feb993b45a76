import PackedGraph.Block.Error

/-!
# Paged blocks of records

A block is a sequence of pages, and a record lies in a single page. A record that does not fit in
what is left of the current page starts a new one, and a record larger than a page has a page of
its own. The address of a record combines the number of its page with its position in the page.
The first element of the first page belongs to no record, so no record has address zero.
-/

namespace PackedGraph

/-- The elements of a block: what stands in the reserved place, and how many bytes one takes. -/
class Element (α : Type) where
  blank : α
  width : Nat

instance : Element UInt8 := ⟨0, 1⟩

instance : Element UInt64 := ⟨0, 8⟩

/-- The base-2 logarithm of a page size. -/
structure PageShift where
  val : Nat
  one_le : 1 ≤ val
  le_max : val ≤ 30

namespace PageShift

def ofNat (shift : Nat) : Except Fault PageShift :=
  if h : 1 ≤ shift ∧ shift ≤ 30 then .ok ⟨shift, h.1, h.2⟩ else .error (.pageShift shift)

def pageSize (shift : PageShift) : Nat := 1 <<< shift.val

theorem pageSize_pos (shift : PageShift) : 0 < shift.pageSize := by
  rw [pageSize, Nat.one_shiftLeft]
  exact Nat.two_pow_pos _

end PageShift

structure Pages (α : Type) where
  shift : PageShift
  pages : Array (Array α)

namespace Pages

variable {α : Type}

def sizeInBytes [Element α] (block : Pages α) : Nat :=
  (block.pages.map fun page ↦ page.size * Element.width α).foldl (· + ·) 0

/-- Splits an address into a page number and a position in that page. -/
def locate (block : Pages α) (address : Nat) : Except DecodeError (Nat × Nat) :=
  let page := address / block.shift.pageSize
  let index := address % block.shift.pageSize
  match block.pages[page]? with
  | some elements =>
    if address ≠ 0 ∧ index < elements.size then .ok (page, index)
    else .error (.addressOutside address)
  | none => .error (.addressOutside address)

end Pages

/-- A block under construction: its complete pages, and the page records are added to. -/
structure PagesBuilder (α : Type) where
  shift : PageShift
  complete : Array (Array α)
  current : Array α

namespace PagesBuilder

variable {α : Type}

def new [Element α] (shift : PageShift) : PagesBuilder α := ⟨shift, #[], #[Element.blank]⟩

/-- Completes the current page, unless it is empty. -/
def flush (builder : PagesBuilder α) : PagesBuilder α :=
  if builder.current.isEmpty then builder
  else ⟨builder.shift, builder.complete.push builder.current, #[]⟩

/-- Adds a nonempty record and returns its address. -/
def push (builder : PagesBuilder α) (record : Array α) : PagesBuilder α × Nat :=
  let pageSize := builder.shift.pageSize
  if pageSize < record.size then
    let builder := builder.flush
    ({ builder with complete := builder.complete.push record }, builder.complete.size * pageSize)
  else
    let builder :=
      if pageSize < builder.current.size + record.size then builder.flush else builder
    ({ builder with current := builder.current ++ record },
      builder.complete.size * pageSize + builder.current.size)

/-- Adds records one after another and returns their addresses. -/
def pushAll (builder : PagesBuilder α) : List (Array α) → PagesBuilder α × List Nat
  | [] => (builder, [])
  | record :: records =>
    let (builder, address) := builder.push record
    let (builder, addresses) := builder.pushAll records
    (builder, address :: addresses)

def build (builder : PagesBuilder α) : Pages α := ⟨builder.shift, builder.flush.complete⟩

end PagesBuilder

end PackedGraph
