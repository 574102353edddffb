import Mathlib
import Stylesheet.Proofs.Lists
import Stylesheet.Proofs.Sheet.Search

/-!
# Where a search may start

A search that starts from a list of nodes, a node or a list of declarations is made up of the
searches of its parts, in their order, where of the declarations only those take part that
the filter names. A search from one declaration goes through all its values, and there the
filter has no say: it is asked while declarations are chosen from a list.

So the search of a list of declarations is that of its declarations exactly if those that
the filter does not name have no leaves. And all that is found stands in declarations that
the filter names, unless the search starts from one that it does not name.
-/

namespace Stylesheet

namespace Value

/-- A value is found itself, or what is found are the leaves of the values in it. -/
theorem leaves_eq_opened (inside : Bool) (v : Value) :
    v.leaves inside = if v.isLeaf then [v] else (v.opened inside).flatMap (leaves inside) := by
  cases v with
  | size | keyword | quoted => rfl
  | series s items => exact allLeaves_eq_flatMap inside items
  | call name s arguments =>
      cases inside with
      | true => exact allLeaves_eq_flatMap true arguments
      | false => rfl
  | color c =>
      cases inside with
      | true =>
          have channels : (c.components.map Value.size).flatMap (leaves true) =
              c.components.map .size := by
            rw [List.flatMap_map, List.map_eq_flatMap]
            rfl
          exact channels.symm
      | false => rfl

end Value

namespace Declaration

variable {filter : Option String} {inside : Bool} {d : Declaration}

/-- A filter names a declaration, or there is none. -/
def Passes (filter : Option String) (d : Declaration) : Prop := ∀ f ∈ filter, NamedBy f d.property

instance decidablePasses (filter : Option String) (d : Declaration) :
    Decidable (Passes filter d) :=
  inferInstanceAs (Decidable (∀ f ∈ filter, NamedBy f d.property))

theorem passes_iff : Passes filter d ↔ filter.all d.matchesFilter = true := by
  simp only [Passes, Option.all_eq_true, matchesFilter, admits_iff, Option.mem_def]

theorem leaves_eq_flatMap (inside : Bool) (d : Declaration) :
    d.leaves inside = d.values.flatMap (Value.leaves inside) :=
  Value.allLeaves_eq_flatMap inside d.values

theorem listLeaves_eq_passing (filter : Option String) (inside : Bool) (ds : List Declaration) :
    listLeaves filter inside ds = (ds.filter (Passes filter)).flatMap (leaves inside) := by
  rw [listLeaves]
  congr 1
  apply List.filter_congr
  intro d _
  rw [Bool.eq_iff_iff, decide_eq_true_eq, passes_iff]

theorem flatMap_listLeaves (filter : Option String) (inside : Bool)
    (dss : List (List Declaration)) :
    dss.flatMap (listLeaves filter inside) =
      (dss.flatten.filter (Passes filter)).flatMap (leaves inside) := by
  induction dss with
  | nil => rfl
  | cons ds dss ih =>
      rw [List.flatMap_cons, ih, listLeaves_eq_passing, List.flatten_cons, List.filter_append,
        List.flatMap_append]

end Declaration

namespace Node

theorem allLeaves_eq_flatMap (filter : Option String) (inside : Bool) (ns : List Node) :
    allLeaves filter inside ns = ns.flatMap (leaves filter inside) := by
  induction ns with
  | nil => rfl
  | cons n ns ih => rw [allLeaves, List.flatMap_cons, ih]

/-- The declarations in a node, at whatever depth. -/
theorem leaves_eq_flatMap (filter : Option String) (inside : Bool) (n : Node) :
    n.leaves filter inside =
      n.declarationLists.flatMap (Declaration.listLeaves filter inside) := by
  have single := Sheet.allLeaves_eq_flatMap filter inside [n]
  simpa [allLeaves, allDeclarationLists] using single

end Node

namespace SearchRoot

variable {filter : Option String} {inside : Bool}

/-- The roots directly below a root. -/
def parts (inside : Bool) : SearchRoot → List SearchRoot
  | .nodes ns => ns.map .node
  | .node n => (n.declarations?.map .declarations).toList ++ (n.children?.map .nodes).toList
  | .declarations ds => ds.map .declaration
  | .declaration d => d.values.map .value
  | .value v => (v.opened inside).map .value

/-- The declarations from which a search may take what it finds. -/
def reached : SearchRoot → List Declaration
  | .nodes ns => (Node.allDeclarationLists ns).flatten
  | .node n => n.declarationLists.flatten
  | .declarations ds => ds
  | .declaration d => [d]
  | .value _ => []

/-- A filter lets a root through: it is about declarations. -/
def Passes (filter : Option String) : SearchRoot → Prop
  | .declaration d => d.Passes filter
  | _ => True

instance decidablePasses (filter : Option String) : DecidablePred (Passes filter)
  | .declaration d => d.decidablePasses filter
  | .nodes _ | .node _ | .declarations _ | .value _ => .isTrue trivial

/-- A root with nothing below it. -/
def isLeaf : SearchRoot → Bool
  | .value v => v.isLeaf
  | _ => false

theorem filter_eq_self {roots : List SearchRoot} (passes : ∀ r ∈ roots, r.Passes filter) :
    roots.filter (Passes filter) = roots :=
  List.filter_eq_self.2 fun r hr => decide_eq_true (passes r hr)

/-- Below a root its parts are searched, less those that the filter does not let through. -/
theorem leaves_eq_parts (root : SearchRoot) (divisible : root.isLeaf = false) :
    root.leaves filter inside =
      ((root.parts inside).filter (Passes filter)).flatMap (leaves filter inside) := by
  cases root with
  | nodes ns =>
      rw [filter_eq_self (by simp [parts, Passes]), parts, List.flatMap_map]
      exact Node.allLeaves_eq_flatMap filter inside ns
  | node n =>
      rw [filter_eq_self (by cases n <;> simp [parts, Node.declarations?, Node.children?, Passes])]
      cases n <;> simp [parts, Node.declarations?, Node.children?, leaves, Node.leaves]
  | declarations ds =>
      rw [parts, List.filter_map, List.flatMap_map]
      exact Declaration.listLeaves_eq_passing filter inside ds
  | declaration d =>
      rw [filter_eq_self (by simp [parts, Passes]), parts, List.flatMap_map]
      exact d.leaves_eq_flatMap inside
  | value v =>
      rw [isLeaf] at divisible
      rw [filter_eq_self (by simp [parts, Passes]), parts, List.flatMap_map]
      have opened := v.leaves_eq_opened inside
      rw [divisible] at opened
      exact opened

/-- What a filter leaves of the parts is all of them exactly if the others have no leaves. -/
theorem leaves_eq_all_parts_iff (root : SearchRoot) (divisible : root.isLeaf = false) :
    root.leaves filter inside =
        (if root.Passes filter then (root.parts inside).flatMap (leaves filter inside) else []) ↔
      (root.Passes filter ∨ root.leaves filter inside = []) ∧
        ∀ part ∈ root.parts inside, part.Passes filter ∨ part.leaves filter inside = [] := by
  by_cases passes : root.Passes filter
  · rw [if_pos passes, leaves_eq_parts root divisible, flatMap_filter_eq_iff]
    simp only [passes, true_or, true_and]
  · rw [if_neg passes]
    cases root with
    | declaration d =>
        have refused : ¬d.Passes filter := passes
        simp [parts, Passes, refused]
    | _ => exact absurd trivial passes

theorem leaves_eq_reached_iff (root : SearchRoot) (listed : ∀ v, root ≠ .value v) :
    root.leaves filter inside =
        (root.reached.filter (Declaration.Passes filter)).flatMap (Declaration.leaves inside) ↔
      root.Passes filter ∨ root.leaves filter inside = [] := by
  cases root with
  | nodes ns =>
      simp only [Passes, true_or, iff_true, reached, ← Declaration.flatMap_listLeaves]
      exact Sheet.allLeaves_eq_flatMap filter inside ns
  | node n =>
      simp only [Passes, true_or, iff_true, reached, ← Declaration.flatMap_listLeaves]
      exact n.leaves_eq_flatMap filter inside
  | declarations ds =>
      simp only [Passes, true_or, iff_true]
      exact Declaration.listLeaves_eq_passing filter inside ds
  | declaration d =>
      by_cases passes : d.Passes filter <;> simp [reached, leaves, Passes, passes]
  | value v => exact absurd rfl (listed v)

end SearchRoot

open SearchRoot

/-- A search is made up of the searches of its parts that the filter lets through. So it is
made up of all of them, and finds nothing below a declaration that the filter does not name,
exactly if such a declaration, as its start or as one of its parts, has no leaves. And what
it finds stands in the declarations that the filter names, exactly if its start is none that
the filter does not name, or has no leaves. -/
theorem Sheet.search_divided_iff (filter : Option String) (inside : Bool) (sheet : List Node) :
    let search root := Sheet.values (some root) filter inside sheet
    Sheet.values none filter inside sheet = search (.nodes sheet) ∧
      (∀ v : Value, v.isLeaf = true → search (.value v) = [v]) ∧
      (∀ root, root.isLeaf = false →
        search root = ((root.parts inside).filter (Passes filter)).flatMap search) ∧
      (∀ root, root.isLeaf = false →
        (search root = (if root.Passes filter then (root.parts inside).flatMap search else []) ↔
          (root.Passes filter ∨ search root = []) ∧
            ∀ part ∈ root.parts inside, part.Passes filter ∨ search part = [])) ∧
      ∀ root, (∀ v, root ≠ .value v) →
        (search root =
            (root.reached.filter (Declaration.Passes filter)).flatMap (·.leaves inside) ↔
          root.Passes filter ∨ search root = []) := by
  refine ⟨rfl, ?_, leaves_eq_parts, leaves_eq_all_parts_iff, leaves_eq_reached_iff⟩
  intro v leaf
  have found := v.leaves_eq_opened inside
  rwa [if_pos leaf] at found

/-- A search that starts from a declaration finds values in it although the filter names
another property. -/
theorem Sheet.unnamed_declaration_is_searched :
    Sheet.values (some (.declaration ⟨"color", [.keyword "red"], false⟩)) (some "margin") false
        [.block ⟨[], [⟨"color", [.keyword "red"], false⟩]⟩] = [.keyword "red"] ∧
      ¬Declaration.NamedBy "margin" "color" := by
  refine ⟨rfl, ?_⟩
  rw [← Declaration.admits_iff]
  decide

end Stylesheet
