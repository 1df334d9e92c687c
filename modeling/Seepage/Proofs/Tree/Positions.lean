import Seepage.Proofs.Tree.Layout

set_option autoImplicit false

namespace Seepage

open List

variable {id : Nat}

namespace Arena

structure Accessible (arena : Arena) : Prop where
  root : Arena.root < arena.size
  program : arena.kind Arena.root = .program
  children : ∀ id, ∀ child ∈ arena.children id, child < arena.size
  ancestors : ∀ id, ∀ above ∈ arena.ancestors id, above < arena.size
  lookups : ∀ id < arena.size, ∀ position < (arena.kind id).leading,
    ∃ child < arena.size, arena.child? id position = some child
  slices : ∀ id < arena.size, ∀ start ≤ (arena.kind id).leading, start ≤ (arena.children id).length
  entries : ∀ id < arena.size, (arena.kind id).isOwner →
    arena.child? id 0 = some (arena.entryOf id) ∧ arena.kind (arena.entryOf id) = .entry
  exits : ∀ id < arena.size, (arena.kind id).isOwner →
    arena.child? id 1 = some (arena.exitOf id) ∧ arena.kind (arena.exitOf id) = .exit
  functions : ∀ id name form paramCount exprBody,
    arena.kind id = .function name form paramCount exprBody →
      ∃ parts, arena.functionParts? id = some parts ∧ parts.params.length = paramCount ∧
        (exprBody → parts.body.isSome) ∧
        ∀ part ∈ parts.entry :: parts.exit :: parts.params ++ parts.body.toList, part < arena.size
  calls : ∀ id, (arena.kind id).isCallLike →
    ∃ callee < arena.size, arena.callee? id = some callee ∧
      arena.children id = callee :: arena.callArgs id

section

variable {arena : Arena} (well : arena.WellNumbered) (laid : arena.LaidOut)

include well laid

theorem leading_le_children (known : id < arena.size) :
    (arena.kind id).leading ≤ (arena.children id).length := by
  obtain ⟨tree, inside, rfl⟩ := well.exists_subtree known
  obtain ⟨seat, seated⟩ := laid.seated.subtree inside
  rw [well.kind_eq inside, well.children_eq inside, length_map]
  exact (Kind.counts_iff.mp seated.counts).1

theorem ends_of_owner (known : id < arena.size) (owns : (arena.kind id).isOwner) :
    ∃ rest, arena.children id = arena.entryOf id :: arena.exitOf id :: rest ∧
      arena.kind (arena.entryOf id) = .entry ∧ arena.kind (arena.exitOf id) = .exit := by
  obtain ⟨tree, inside, rfl⟩ := well.exists_subtree known
  rw [well.kind_eq inside] at owns
  obtain ⟨entry, exit, rest, parts, isEntry, isExit⟩ := laid.exists_ends inside owns
  have children := well.children_eq inside
  rw [parts, map_cons, map_cons] at children
  have first : arena.entryOf tree.label.id = entry.label.id := by
    simp [entryOf, child?, children]
  have second : arena.exitOf tree.label.id = exit.label.id := by
    simp [exitOf, child?, children]
  have below {child : Syntree} (member : child ∈ tree.children) :
      arena.kind child.label.id = child.label.kind :=
    well.kind_eq (Rose.child_inside member inside)
  rw [first, second, below (by simp [parts]), below (by simp [parts])]
  exact ⟨rest.map (·.label.id), children, isEntry, isExit⟩

theorem exists_functionParts {name : Option String} {form : FunctionForm} {paramCount : Nat}
    {exprBody : Bool} (isFunction : arena.kind id = .function name form paramCount exprBody) :
    ∃ parts, arena.functionParts? id = some parts ∧ parts.params.length = paramCount ∧
      (exprBody → parts.body.isSome) ∧
      ∀ part ∈ parts.entry :: parts.exit :: parts.params ++ parts.body.toList, part < arena.size := by
  have known : id < arena.size := lt_size_of_kind (by simp [isFunction])
  obtain ⟨rest, children, -, -⟩ := ends_of_owner well laid known (by simp [isFunction, Kind.isOwner])
  have enough := leading_le_children well laid known
  rw [isFunction, children] at enough
  simp only [Kind.leading, length_cons] at enough
  have inside : ∀ part ∈ arena.entryOf id :: arena.exitOf id :: rest, part < arena.size := by
    intro part member
    exact well.lt_of_mem_children (children ▸ member)
  refine ⟨⟨arena.entryOf id, arena.exitOf id, rest.take paramCount, rest[paramCount]?⟩, ?_, ?_, ?_, ?_⟩
  · simp only [functionParts?, isFunction, children]
  · rw [length_take]
    omega
  · rintro rfl
    have position : paramCount < rest.length := by
      rw [Bool.toNat_true] at enough
      omega
    simp [position]
  · intro part member
    apply inside
    simp only [cons_append, mem_cons, mem_append, Option.mem_toList] at member ⊢
    rcases member with entry | exit | param | body
    · exact .inl entry
    · exact .inr (.inl exit)
    · exact .inr (.inr (mem_of_mem_take param))
    · exact .inr (.inr (mem_of_getElem? body))

theorem exists_callee (isCall : (arena.kind id).isCallLike) :
    ∃ callee < arena.size, arena.callee? id = some callee ∧
      arena.children id = callee :: arena.callArgs id := by
  have known : id < arena.size := by
    apply lt_size_of_kind
    intro isProgram
    rw [isProgram] at isCall
    cases isCall
  have enough := leading_le_children well laid known
  have one : 1 ≤ (arena.kind id).leading := by
    revert isCall
    cases arena.kind id <;> simp [Kind.isCallLike, Kind.leading]
  cases children : arena.children id with
  | nil =>
    rw [children, length_nil] at enough
    omega
  | cons callee args =>
    refine ⟨callee, well.lt_of_mem_children (children ▸ mem_cons_self), ?_, ?_⟩
    · simp [callee?, isCall, child?, children]
    · simp [callArgs, isCall, children]

theorem kind_root : arena.kind Arena.root = .program := by
  have first : arena.tree.label.id = Arena.root := by
    have numbered := well.numbered
    cases isTree : arena.tree with
    | node node children =>
      rw [isTree] at numbered
      exact numbered.1
  rw [← first, well.kind_eq arena.tree.self_mem_subtrees]
  exact laid.program

theorem accessible : arena.Accessible where
  root := well.root_lt
  program := kind_root well laid
  children _ _ member := well.lt_of_mem_children member
  ancestors _ _ member := well.lt_of_mem_ancestors member
  lookups id known position early := by
    have inside := Nat.lt_of_lt_of_le early (leading_le_children well laid known)
    exact ⟨_, well.lt_of_mem_children (getElem_mem inside), getElem?_eq_getElem inside⟩
  slices id known start early := Nat.le_trans early (leading_le_children well laid known)
  entries id known owns := by
    obtain ⟨rest, children, isEntry, -⟩ := ends_of_owner well laid known owns
    exact ⟨by rw [child?, children]; rfl, isEntry⟩
  exits id known owns := by
    obtain ⟨rest, children, -, isExit⟩ := ends_of_owner well laid known owns
    exact ⟨by rw [child?, children]; rfl, isExit⟩
  functions _ _ _ _ _ isFunction := exists_functionParts well laid isFunction
  calls _ isCall := exists_callee well laid isCall

end

end Arena

end Seepage
