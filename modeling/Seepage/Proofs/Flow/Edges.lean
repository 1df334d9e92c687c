import Seepage.Flow.Control

set_option autoImplicit false

namespace Seepage

variable {edges : List ControlEdge} {source target aim : Nat} {exits : Exits} {label : ControlLabel}

def Joins (edges : List ControlEdge) (source target : Nat) : Prop :=
  ∃ label, ⟨source, target, label⟩ ∈ edges

def IsOpen (exits : Exits) (source : Nat) : Prop :=
  ∃ label, (source, label) ∈ exits

theorem joins_iff :
    Joins edges source target ↔ ∃ edge ∈ edges, edge.source = source ∧ edge.target = target := by
  constructor
  · rintro ⟨label, member⟩
    exact ⟨_, member, rfl, rfl⟩
  · rintro ⟨⟨_, _, label⟩, member, rfl, rfl⟩
    exact ⟨label, member⟩

instance (edges : List ControlEdge) (source target : Nat) : Decidable (Joins edges source target) :=
  decidable_of_iff' _ joins_iff

theorem joins_append {edges' : List ControlEdge} :
    Joins (edges ++ edges') source target ↔
      Joins edges source target ∨ Joins edges' source target := by
  simp [Joins, exists_or]

theorem not_joins_nil : ¬Joins [] source target := by
  simp [Joins]

theorem joins_single {edge : ControlEdge} :
    Joins [edge] source target ↔ source = edge.source ∧ target = edge.target := by
  obtain ⟨first, last, label⟩ := edge
  simp [Joins]

theorem joins_connect :
    Joins (connect exits aim) source target ↔ IsOpen exits source ∧ target = aim := by
  simp only [Joins, connect, List.mem_map, ControlEdge.mk.injEq, IsOpen]
  constructor
  · rintro ⟨label, ⟨own, found⟩, member, rfl, rfl, rfl⟩
    exact ⟨⟨found, member⟩, rfl⟩
  · rintro ⟨⟨label, member⟩, rfl⟩
    exact ⟨label, (source, label), member, rfl, rfl, rfl⟩

theorem joins_connectAs :
    Joins (connectAs label exits aim) source target ↔ IsOpen exits source ∧ target = aim := by
  simp only [Joins, connectAs, List.mem_map, ControlEdge.mk.injEq, IsOpen]
  constructor
  · rintro ⟨_, ⟨own, found⟩, member, rfl, rfl, -⟩
    exact ⟨⟨found, member⟩, rfl⟩
  · rintro ⟨⟨found, member⟩, rfl⟩
    exact ⟨label, (source, found), member, rfl, rfl, rfl⟩

theorem isOpen_append {exits' : Exits} :
    IsOpen (exits ++ exits') source ↔ IsOpen exits source ∨ IsOpen exits' source := by
  simp [IsOpen, exists_or]

theorem IsOpen.left {exits' : Exits} (here : IsOpen exits source) :
    IsOpen (exits ++ exits') source :=
  isOpen_append.mpr (.inl here)

theorem IsOpen.right {exits' : Exits} (there : IsOpen exits' source) :
    IsOpen (exits ++ exits') source :=
  isOpen_append.mpr (.inr there)

theorem isOpen_single {vertex : Nat} : IsOpen [(vertex, label)] source ↔ source = vertex := by
  simp [IsOpen]

end Seepage
