import Mathlib.Data.List.Basic
import Sable.Proofs.Syntax.Parents
import Sable.Proofs.Syntax.Tree
import Sable.Syntax.Outline

/-!
# The lines of an outline

The line of a node goes on behind its caption only where the caption itself has line feeds. Numbers,
operators and words have none, so apart from names, this leaves quoted literals.

## Main definitions

* `Text.lines`: the lines of a text.
* `Head.lineFeeds`: the line feeds in a quoted literal.
* `Tree.IsOutlinedBy`: one line for each node.

## Main statements

* `Tree.length_lines_outline`, `Tree.getElem?_lines_outline`: the lines of an outline.
* `Tree.isOutlinedBy_iff`: when there is one for each node.
* `Head.count_caption`: which captions have line feeds.
-/
namespace Sable

namespace Text

/-! ## Lines -/

/-- The lines of a text, each of which ends in a line feed. -/
def lines (cs : List Char) : List (List Char) := (cs.splitOn '\n').dropLast

theorem lines_append_cons (cs ds : List Char) :
    lines (cs ++ '\n' :: ds) = cs.splitOn '\n' ++ lines ds := by
  rw [lines, List.splitOn_append_cons_self,
    List.dropLast_append_of_ne_nil (List.splitOn_ne_nil _ _), lines]

theorem lines_join (ss : List String) : lines (String.join (ss.map (· ++ "\n"))).toList =
    ss.flatMap fun s => s.toList.splitOn '\n' := by
  rw [String.toList_join]
  induction ss with
  | nil => rfl
  | cons s ss ih =>
    rw [List.map_cons, List.flatMap_cons, List.flatMap_cons, ← ih, String.toList_append,
      List.append_assoc]
    exact lines_append_cons s.toList _

theorem length_splitOn (cs : List Char) : (cs.splitOn '\n').length = 1 + cs.count '\n' := by
  induction cs with
  | nil => rfl
  | cons c cs ih =>
    rw [List.splitOn_cons_eq_if_modifyHead, List.count_cons]
    split
    · rw [List.length_cons, ih, Nat.add_assoc]
    · rw [List.length_modifyHead, ih, Nat.add_zero]

/-- The first line begins with what the text begins with, if that has no line feed. -/
theorem exists_splitOn_append {cs : List Char} (h : '\n' ∉ cs) (ds : List Char) :
    ∃ line, ((cs ++ ds).splitOn '\n').head? = some line ∧ cs <+: line := by
  induction cs with
  | nil =>
    obtain ⟨line, lines, hlines⟩ := List.exists_cons_of_ne_nil (List.splitOn_ne_nil '\n' ds)
    exact ⟨line, by rw [List.nil_append, hlines]; rfl, List.nil_prefix⟩
  | cons c cs ih =>
    rw [List.mem_cons, not_or] at h
    obtain ⟨line, hline, hprefix⟩ := ih h.2
    refine ⟨c :: line, ?_, List.cons_prefix_cons.2 ⟨rfl, hprefix⟩⟩
    rw [List.cons_append, List.splitOn_cons_eq_if_modifyHead,
      if_neg (by simpa using Ne.symm h.1), List.head?_modifyHead, hline]
    rfl

end Text

namespace Tree

open Text

/-! ## Trees -/

/-- Where a part of a list begins that is put together of parts. -/
theorem getElem?_flatMap_of_ne_nil {α β : Type} {f : α → List β} (hf : ∀ x, f x ≠ [])
    {l : List α} {k : Nat} {x : α} (h : l[k]? = some x) :
    (l.flatMap f)[((l.take k).map fun x => (f x).length).sum]? = (f x).head? := by
  induction l generalizing k with
  | nil => simp at h
  | cons y l ih =>
    cases k with
    | zero =>
      obtain rfl : y = x := Option.some.inj h
      obtain ⟨z, zs, hz⟩ := List.exists_cons_of_ne_nil (hf y)
      simp [hz]
    | succ k =>
      rw [List.take_succ_cons, List.map_cons, List.sum_cons, List.flatMap_cons,
        List.getElem?_append_right (Nat.le_add_right _ _), Nat.add_sub_cancel_left]
      exact ih h

theorem toList_indentation (depth : Nat) :
    (indentation depth).toList = List.replicate (2 * depth) ' ' := String.toList_ofList ..

mutual

/-- A node is as deep as its path is long. -/
theorem outlineLines_eq (above : List Node) : (t : Tree) → t.outlineLines above.length =
    (t.paths above).map fun p => indentation p.2.length ++ p.1.head.caption
  | .node n cs => by
    rw [outlineLines, paths, List.map_cons, ← outlinesLines_eq (n :: above) cs, List.length_cons]

theorem outlinesLines_eq (above : List Node) : (ts : List Tree) →
    outlinesLines above.length ts =
      (allPaths above ts).map fun p => indentation p.2.length ++ p.1.head.caption
  | [] => rfl
  | t :: ts => by
    rw [outlinesLines, allPaths, List.map_append, outlineLines_eq above t,
      outlinesLines_eq above ts]

end

/-- The lines for a node with its path. -/
def entry (p : Node × List Node) : List (List Char) :=
  (indentation p.2.length ++ p.1.head.caption).toList.splitOn '\n'

theorem lines_outline (t : Tree) : lines t.outline.toList = (t.paths []).flatMap entry := by
  have h := outlineLines_eq [] t
  rw [List.length_nil] at h
  rw [outline, lines_join, h, List.flatMap_map]
  rfl

end Tree

/-- The line feeds in the caption of a node. -/
def Node.lineFeeds (n : Node) : Nat := n.head.caption.toList.count '\n'

theorem NodeKind.lineFeed_notMem_name (k : NodeKind) : '\n' ∉ k.name.toList := by
  cases k <;> decide

/-- A caption begins with the kind. -/
theorem Head.exists_caption (h : Head) : ∃ rest, h.caption.toList = h.kind.name.toList ++ rest := by
  rw [caption]
  split
  · exact ⟨_, by rw [String.toList_append, String.toList_append, List.append_assoc]⟩
  · exact ⟨[], (List.append_nil _).symm⟩

namespace Tree

open Text

theorem entry_ne_nil (p : Node × List Node) : entry p ≠ [] := List.splitOn_ne_nil _ _

theorem length_entry (p : Node × List Node) : (entry p).length = 1 + p.1.lineFeeds := by
  rw [entry, length_splitOn, String.toList_append, List.count_append, toList_indentation,
    List.count_replicate, Node.lineFeeds]
  simp

theorem head?_entry (p : Node × List Node) : ∃ line, (entry p).head? = some line ∧
    List.replicate (2 * p.2.length) ' ' ++ p.1.kind.name.toList <+: line := by
  obtain ⟨rest, hrest⟩ := p.1.head.exists_caption
  rw [entry, String.toList_append, toList_indentation, hrest, ← List.append_assoc]
  refine exists_splitOn_append ?_ rest
  rw [List.mem_append, not_or]
  exact ⟨fun h => by simp [List.mem_replicate] at h, NodeKind.lineFeed_notMem_name _⟩

theorem sum_entries (ps : List (Node × List Node)) :
    (ps.map fun p => (entry p).length).sum = ps.length + (ps.map fun p => p.1.lineFeeds).sum := by
  induction ps with
  | nil => rfl
  | cons p ps ih =>
    rw [List.map_cons, List.sum_cons, ih, length_entry, List.map_cons, List.sum_cons,
      List.length_cons]
    omega

theorem length_lines_outline (t : Tree) :
    (lines t.outline.toList).length = t.size + (t.preorder.map Node.lineFeeds).sum := by
  rw [lines_outline, List.length_flatMap, sum_entries, length_paths, ← map_fst_paths [],
    List.map_map]
  rfl

/-- The line of a node stands behind those of the nodes before it, and has the depth and the kind of
the node in front. -/
theorem getElem?_lines_outline {t : Tree} {k : Nat} {n : Node} {above : List Node}
    (h : (t.paths [])[k]? = some (n, above)) : ∃ line,
      (lines t.outline.toList)[k + ((t.preorder.take k).map Node.lineFeeds).sum]? = some line ∧
        List.replicate (2 * above.length) ' ' ++ n.kind.name.toList <+: line := by
  obtain ⟨line, hline, hprefix⟩ := head?_entry (n, above)
  refine ⟨line, ?_, hprefix⟩
  have hlength : ((t.paths []).take k).length = k :=
    List.length_take_of_le (Nat.le_of_lt (List.getElem?_eq_some_iff.1 h).1)
  rw [← hline, ← getElem?_flatMap_of_ne_nil entry_ne_nil h, lines_outline, sum_entries, hlength,
    ← map_fst_paths [], ← List.map_take, List.map_map]
  rfl

/-- One line for each node, in preorder. The line of a node is indented by two blanks for each node
around it, and the kind of the node follows. -/
structure IsOutlinedBy (t : Tree) (lines : List (List Char)) : Prop where
  length_eq : lines.length = t.size
  line : ∀ (k : Nat) (n : Node) (above : List Node), (t.paths [])[k]? = some (n, above) →
    ∃ line, lines[k]? = some line ∧
      List.replicate (2 * above.length) ' ' ++ n.kind.name.toList <+: line

theorem isOutlinedBy_iff {t : Tree} :
    t.IsOutlinedBy (lines t.outline.toList) ↔ (t.preorder.map Node.lineFeeds).sum = 0 := by
  constructor
  · intro h
    have hlength := h.length_eq
    rw [length_lines_outline] at hlength
    omega
  · intro h
    refine ⟨by rw [length_lines_outline, h, Nat.add_zero], fun k n above hk => ?_⟩
    have htake : ((t.preorder.take k).map Node.lineFeeds).sum = 0 := by
      rw [List.sum_eq_zero_iff_forall_eq_nat] at h ⊢
      exact fun x hx => h x (List.map_subset _ (List.take_subset _ _) hx)
    have hline := getElem?_lines_outline hk
    rwa [htake, Nat.add_zero] at hline

end Tree

/-! ## Captions -/

/-- The line feeds in a quoted literal. -/
def Value.lineFeeds : Value → Nat
  | .character lexeme | .string lexeme => lexeme.toList.count '\n'
  | _ => 0

def Head.lineFeeds : Head → Nat
  | .value v => v.lineFeeds
  | _ => 0

theorem lineFeed_notMem_toDigits (n : Nat) : '\n' ∉ Nat.toDigits 10 n := fun h =>
  absurd (Nat.isDigit_of_mem_toDigits (by decide) (by decide) h) (by decide)

theorem lineFeed_notMem_integer (i : Int) : '\n' ∉ (toString i).toList := by
  rw [Int.toString_eq_repr, Int.repr_eq_if]
  split <;> simp [lineFeed_notMem_toDigits]

theorem Binary64.lineFeed_notMem_positional (digits : Nat) (s : Int) :
    '\n' ∉ (positional digits s).toList := by
  have hdigits := lineFeed_notMem_toDigits digits
  rw [positional]
  split
  · simp [hdigits, List.mem_replicate]
  · intro h
    rw [String.toList_ofList, List.mem_append, List.mem_cons] at h
    have hzeros : '\n' ∉ List.replicate ((-s).toNat + 1 - (Nat.toDigits 10 digits).length) '0' ++
        Nat.toDigits 10 digits := by
      simp [hdigits, List.mem_replicate]
    rcases h with h | h | h
    · exact hzeros (List.mem_of_mem_take h)
    · exact absurd h (by decide)
    · exact hzeros (List.mem_of_mem_drop h)

theorem Binary64.lineFeed_notMem_render (x : Binary64) : '\n' ∉ x.render.toList := by
  have hmagnitude : '\n' ∉ (if x.isInfinite then "inf" else if x.code = 0 then "0" else
      positional (shortest x.code).1 (shortest x.code).2).toList := by
    split
    · decide
    · split
      · decide
      · exact lineFeed_notMem_positional _ _
  rw [render]
  split
  · decide
  · dsimp only
    split
    · rw [String.toList_append, List.mem_append, not_or]
      exact ⟨by decide, hmagnitude⟩
    · exact hmagnitude

theorem UnaryOp.lineFeed_notMem_spelling (op : UnaryOp) : '\n' ∉ op.spelling.toList := by
  cases op <;> decide

theorem BinaryOp.lineFeed_notMem_spelling (op : BinaryOp) : '\n' ∉ op.spelling.toList := by
  cases op <;> decide

theorem AccessKind.lineFeed_notMem_spelling (k : AccessKind) : '\n' ∉ k.spelling.toList := by
  cases k <;> decide

/-- Where names have no line feeds, only quoted literals may have some. -/
theorem Head.count_detail {h : Head} {text : String} (hdetail : h.detail? = some text)
    (hnames : ∀ name ∈ h.names, '\n' ∉ name.name.toList) :
    text.toList.count '\n' = h.lineFeeds := by
  have hname : ∀ {name : Ident}, name ∈ h.names → name.name.toList.count '\n' = 0 := fun hmem =>
    List.count_eq_zero.2 (hnames _ hmem)
  cases h with
  | classDecl name | function name | parameter name | «variable» name | label name | goto name =>
    obtain rfl := Option.some.inj hdetail
    exact hname (List.mem_singleton.2 rfl)
  | type written =>
    obtain rfl := Option.some.inj hdetail
    have hzero : written.name.name.toList.count '\n' = 0 := hname (List.mem_singleton.2 rfl)
    simp [WrittenType.render, lineFeeds, List.count_replicate, hzero]
  | value v =>
    obtain rfl := Option.some.inj hdetail
    cases v with
    | integer i => exact List.count_eq_zero.2 (lineFeed_notMem_integer i)
    | float x => exact List.count_eq_zero.2 x.lineFeed_notMem_render
    | character lexeme | string lexeme => rfl
    | boolean b => cases b <;> rfl
    | null => rfl
    | identifier name => exact hname (List.mem_singleton.2 rfl)
  | unary op =>
    obtain rfl := Option.some.inj hdetail
    exact List.count_eq_zero.2 op.lineFeed_notMem_spelling
  | binary op =>
    obtain rfl := Option.some.inj hdetail
    exact List.count_eq_zero.2 op.lineFeed_notMem_spelling
  | access kind member =>
    obtain rfl := Option.some.inj hdetail
    have hzero : member.name.toList.count '\n' = 0 := hname (List.mem_singleton.2 rfl)
    rw [String.toList_append, List.count_append, hzero,
      List.count_eq_zero.2 kind.lineFeed_notMem_spelling]
    rfl
  | _ => simp [detail?] at hdetail

theorem Head.count_caption {h : Head} (hnames : ∀ name ∈ h.names, '\n' ∉ name.name.toList) :
    h.caption.toList.count '\n' = h.lineFeeds := by
  have hkind := List.count_eq_zero.2 h.kind.lineFeed_notMem_name
  rw [caption]
  split
  · next text hdetail =>
    rw [String.toList_append, String.toList_append, List.count_append, List.count_append, hkind,
      count_detail hdetail hnames]
    simp
  · next hdetail =>
    rw [hkind]
    cases h <;> first | rfl | simp [detail?] at hdetail

end Sable
