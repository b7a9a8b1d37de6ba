/-
  File:      AndroidLint/Syntax/Tree.lean
  Subject:   Syntax trees of source files.

  Punctuation and comments are left out of the tree. A word or sign that carries meaning, such as a
  modifier or an operator, is a leaf.
-/
import AndroidLint.Text.Offset

namespace AndroidLint.Syntax

/-- The part that a node plays in the node above it. -/
inductive Role where
  | plain
  | name | type | value | key
  | body | parameters | arguments | resources | superclass
  | object | operator | operand | left | right | consequence
  deriving DecidableEq, Repr

/-- A node of a syntax tree, with kinds of nodes in `κ`. -/
structure Tree (κ : Type) where
  kind : κ
  role : Role
  range : ByteRange
  /-- The node as written, with everything that stands between its first and last token. -/
  text : String
  children : List (Tree κ)

namespace Tree

variable {κ : Type}

/-- The first child that plays a part. -/
def child? (t : Tree κ) (role : Role) : Option (Tree κ) := t.children.find? (·.role == role)

/-- The text of the first child that plays a part. -/
def textOf? (t : Tree κ) (role : Role) : Option String := (t.child? role).map (·.text)

/-- The children of a kind. -/
def ofKind [BEq κ] (t : Tree κ) (kind : κ) : List (Tree κ) := t.children.filter (·.kind == kind)

/-- The same node in another part. -/
def as (t : Tree κ) (role : Role) : Tree κ := { t with role }

/-! ## Size -/

mutual

/-- The number of nodes of a tree. -/
def size (t : Tree κ) : Nat :=
  match t with
  | ⟨_, _, _, _, children⟩ => 1 + sizes children

/-- The number of nodes of several trees. -/
def sizes (ts : List (Tree κ)) : Nat :=
  match ts with
  | [] => 0
  | t :: rest => size t + sizes rest

end

theorem size_eq (t : Tree κ) : t.size = 1 + sizes t.children := by
  cases t; simp [size]

theorem size_le_sizes {t : Tree κ} {ts : List (Tree κ)} (h : t ∈ ts) : t.size ≤ sizes ts := by
  induction ts with
  | nil => cases h
  | cons u us ih =>
    simp only [sizes]
    rcases List.mem_cons.1 h with rfl | h
    · omega
    · have := ih h; omega

theorem sizes_append (ts us : List (Tree κ)) : sizes (ts ++ us) = sizes ts + sizes us := by
  induction ts with
  | nil => simp [sizes]
  | cons t ts ih => simp [sizes, ih]; omega

/-- Leaving some trees out does not add nodes. -/
theorem sizes_filter_le (p : Tree κ → Bool) (ts : List (Tree κ)) :
    sizes (ts.filter p) ≤ sizes ts := by
  induction ts with
  | nil => simp
  | cons t ts ih =>
    simp only [List.filter_cons]
    split
    · simp only [sizes]; omega
    · simp only [sizes]; omega

/-- Parts of trees have no more nodes than the trees. -/
theorem sizes_flatMap_le {f : Tree κ → List (Tree κ)} (h : ∀ t, sizes (f t) ≤ t.size)
    (ts : List (Tree κ)) : sizes (ts.flatMap f) ≤ sizes ts := by
  induction ts with
  | nil => simp
  | cons t ts ih =>
    have := h t
    simp only [List.flatMap_cons, sizes_append, sizes]
    omega

/-- A child is smaller than the node. -/
theorem size_lt_of_mem {t c : Tree κ} (h : c ∈ t.children) : c.size < t.size := by
  have := size_le_sizes h
  rw [size_eq t]
  omega

theorem mem_of_child? {t c : Tree κ} {role : Role} (h : t.child? role = some c) :
    c ∈ t.children :=
  List.mem_of_find?_eq_some h

theorem mem_of_ofKind [BEq κ] {t c : Tree κ} {kind : κ} (h : c ∈ t.ofKind kind) :
    c ∈ t.children :=
  (List.mem_filter.1 h).1

theorem size_lt_of_child? {t c : Tree κ} {role : Role} (h : t.child? role = some c) :
    c.size < t.size :=
  size_lt_of_mem (mem_of_child? h)

end Tree

end AndroidLint.Syntax
