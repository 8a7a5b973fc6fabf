/-!
# Spans

A span is a range of byte offsets in one file. Tokens, tree nodes, declarations and errors all
carry one.

## Main definitions

* `Span`: the half-open range from `start` to `stop` of a file.
* `Span.merge`: the smallest span that covers two spans.
* `Span.render`: the written form `start..stop@file`.
-/
namespace Sable

structure Span where
  start : Nat
  stop : Nat
  file : Nat := 0
  deriving DecidableEq, Inhabited

namespace Span

/-- The span of something that is written nowhere. -/
def dummy : Span := ⟨0, 0, 0⟩

/-- The empty span in front of `offset`. -/
def empty (offset : Nat) (file : Nat) : Span := ⟨offset, offset, file⟩

/-- Covers both spans; the file is that of the first. -/
def merge (a b : Span) : Span := ⟨min a.start b.start, max a.stop b.stop, a.file⟩

def length (s : Span) : Nat := s.stop - s.start

def isEmpty (s : Span) : Bool := s.start == s.stop

def contains (s : Span) (offset : Nat) : Bool := s.start ≤ offset && offset < s.stop

def render (s : Span) : String := s!"{s.start}..{s.stop}@{s.file}"

@[simp] theorem merge_start (a b : Span) : (a.merge b).start = min a.start b.start := rfl

@[simp] theorem merge_stop (a b : Span) : (a.merge b).stop = max a.stop b.stop := rfl

@[simp] theorem merge_file (a b : Span) : (a.merge b).file = a.file := rfl

theorem contains_iff {s : Span} {offset : Nat} :
    s.contains offset = true ↔ s.start ≤ offset ∧ offset < s.stop := by
  simp [contains]

end Span

end Sable
