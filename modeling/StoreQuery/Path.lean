import StoreQuery.Text.Split

/-!
# Property paths

A path names a property of an entity by the segments that lead to it. Its text puts dots between
the segments, and reading a text cuts it at every dot. A segment that is given directly may hold
a dot itself, so two different paths can have one text.
-/

namespace StoreQuery

/-- A property, by the segments that lead to it. -/
structure Path where
  segments : List String
  deriving DecidableEq, Repr

namespace Path

/-- The path without segments. -/
def root : Path := ⟨[]⟩

instance : Inhabited Path := ⟨root⟩

/-- Cuts a text at every dot. -/
def ofText (text : String) : Path := ⟨Text.split '.' text⟩

/-- The segments with dots between them. -/
def toText (p : Path) : String := Text.join "." p.segments

def length (p : Path) : Nat := p.segments.length

def isEmpty (p : Path) : Bool := p.segments.isEmpty

/-- All segments but the last. -/
def base (p : Path) : List String := p.segments.dropLast

/-- The last segment; empty for the path without segments. -/
def name (p : Path) : String := p.segments.getLast?.getD ""

/-- Whether the path begins with the given segments. -/
def startsWith (p : Path) (start : List String) : Bool := start.isPrefixOf p.segments

/-- Whether the path is the given base and exactly one segment more. -/
def hasBase (p : Path) (base : List String) : Bool :=
  p.segments.length = base.length + 1 && p.startsWith base

/-- One path after the other. -/
def join (p q : Path) : Path := ⟨p.segments ++ q.segments⟩

/-- The path with one segment more. -/
def child (p : Path) (segment : String) : Path := ⟨p.segments ++ [segment]⟩

end Path

end StoreQuery
