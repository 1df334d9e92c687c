import Seepage.Scope.Resolution

set_option autoImplicit false

namespace Seepage

variable {table : SymbolTable} {symbol node : Nat}

namespace SymbolTable

theorem findLocal?_declare (table : SymbolTable) (name other : String) (kind : SymbolKind)
    (scope place node : Nat) : (table.declare name kind scope node).findLocal? other place =
      (table.findLocal? other place).or
        (if other = name ∧ place = scope then some table.size else none) := by
  unfold declare
  split
  case h_1 symbol found =>
    split
    case isTrue same =>
      obtain ⟨rfl, rfl⟩ := same
      rw [found]
      rfl
    case isFalse => simp
  case h_2 absent =>
    simp only [findLocal?, Array.findIdx?_push, Bool.and_eq_true, beq_iff_eq, size]
    simp only [and_comm, eq_comm]

theorem findLocal?_addReference (table : SymbolTable) (symbol node : Nat) (name : String)
    (scope : Nat) :
    (table.addReference symbol node).findLocal? name scope = table.findLocal? name scope := by
  have same : (table.addReference symbol node).symbols.map (fun entry => (entry.scope, entry.name)) =
      table.symbols.map fun entry => (entry.scope, entry.name) := by
    apply Array.ext
    · simp [addReference]
    · intro index _ _
      simp only [addReference, Array.getElem_map, Array.getElem_modify]
      split <;> rfl
  have mapped : ∀ table : SymbolTable, table.findLocal? name scope =
      (table.symbols.map fun entry => (entry.scope, entry.name)).findIdx?
        fun entry => entry.1 == scope && entry.2 == name := by
    intro table
    rw [Array.findIdx?_map]
    rfl
  rw [mapped, mapped, same]

theorem name_of_findLocal? {name : String} {scope : Nat}
    (found : table.findLocal? name scope = some symbol) :
    (table.get symbol).name = name ∧ (table.get symbol).scope = scope := by
  obtain ⟨bound, holds, -⟩ := Array.findIdx?_eq_some_iff_getElem.mp found
  simp only [Bool.and_eq_true, beq_iff_eq] at holds
  simp [get, bound, holds]

section

variable {table : SymbolTable} {name : String}

theorem lt_of_findLocal? {scope : Nat} (found : table.findLocal? name scope = some symbol) :
    symbol < table.size :=
  (Array.findIdx?_eq_some_iff_getElem.mp found).1

theorem mem_declare {kind : SymbolKind} {scope : Nat} {symbol : Symbol}
    (member : symbol ∈ (table.declare name kind scope node).symbols) :
    symbol ∈ table.symbols ∨ symbol.scope = scope ∧ symbol.declaration = node := by
  unfold declare at member
  split at member
  case h_1 => exact .inl member
  case h_2 =>
    rcases Array.mem_push.mp member with old | rfl
    · exact .inl old
    · exact .inr ⟨rfl, rfl⟩

end

theorem size_le_declare (table : SymbolTable) (name : String) (kind : SymbolKind)
    (scope node : Nat) : table.size ≤ (table.declare name kind scope node).size := by
  unfold declare
  split
  case h_1 => exact Nat.le_refl _
  case h_2 => simp [size]

theorem exists_findLocal?_declare (table : SymbolTable) (name : String) (kind : SymbolKind)
    (scope node : Nat) :
    ∃ symbol, (table.declare name kind scope node).findLocal? name scope = some symbol := by
  rw [findLocal?_declare]
  simp

theorem size_addReference (table : SymbolTable) (symbol node : Nat) :
    (table.addReference symbol node).size = table.size := by
  simp [addReference, size]

theorem mem_addReference {target : Nat} {symbol : Symbol}
    (member : symbol ∈ (table.addReference target node).symbols) :
    ∃ old ∈ table.symbols, symbol.scope = old.scope ∧ symbol.declaration = old.declaration := by
  obtain ⟨index, known, rfl⟩ := Array.getElem_of_mem member
  have inside : index < table.symbols.size := by simpa [addReference] using known
  refine ⟨table.symbols[index], Array.getElem_mem inside, ?_⟩
  simp only [addReference, Array.getElem_modify]
  split <;> exact ⟨rfl, rfl⟩

end SymbolTable

namespace ScopeTree

theorem size_create (tree : ScopeTree) (kind : ScopeKind) (parent : Option Nat) (node : Nat) :
    (tree.create kind parent node).size = tree.size + 1 := by
  simp [size, create]

theorem chain_create_size (tree : ScopeTree) (kind : ScopeKind) (parent node : Nat) :
    (tree.create kind (some parent) node).chain tree.size = tree.size :: tree.chain parent := by
  simp [chain, get, create, size]

end ScopeTree

namespace Resolution

section

variable (resolution : Resolution) (scope : Nat)

theorem scopes_declareAll (hoisted : List Hoisted) :
    (resolution.declareAll scope hoisted).scopes = resolution.scopes ∧
      (resolution.declareAll scope hoisted).scopeOf = resolution.scopeOf := by
  induction hoisted generalizing resolution with
  | nil => exact ⟨rfl, rfl⟩
  | cons first rest ih => exact ih (resolution.declare scope first)

theorem findLocal?_declare (hoisted : Hoisted) (name : String) (place : Nat) :
    (resolution.declare scope hoisted).symbols.findLocal? name place =
      (resolution.symbols.findLocal? name place).or
        (if name = hoisted.name ∧ place = scope then some resolution.symbols.size else none) :=
  SymbolTable.findLocal?_declare ..

theorem symbolOf_declare {hoisted : Hoisted} {id : Nat}
    (other : hoisted.ownNode = true → hoisted.node ≠ id) :
    (resolution.declare scope hoisted).symbolOf[id]? = resolution.symbolOf[id]? := by
  simp only [declare]
  split
  case isTrue own =>
    rw [Std.TreeMap.getElem?_insert, if_neg (by simpa using other own)]
  case isFalse => rfl

end

theorem symbolOf_refer (before : Resolution) (node symbol id : Nat) :
    (before.refer node symbol).symbolOf[id]? =
      if node = id then some symbol else before.symbolOf[id]? := by
  simp only [refer, Std.TreeMap.getElem?_insert]
  by_cases same : node = id <;> simp [same]

end Resolution

end Seepage
