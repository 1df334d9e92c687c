import Seepage.NatSet
import Std.Data.TreeMap

set_option autoImplicit false

namespace Seepage

abbrev Relation := Std.TreeMap Nat NatSet

namespace Relation

def image (relation : Relation) (key : Nat) : NatSet :=
  relation.getD key []

def imageAll (relation : Relation) (keys : List Nat) : NatSet :=
  keys.foldl (fun found key => NatSet.union found (relation.image key)) []

def extend (relation : Relation) (key : Nat) (items : NatSet) : Relation × Nat :=
  let old := relation.image key
  let new := NatSet.union old items
  if new.length = old.length then (relation, 0)
  else (relation.insert key new, new.length - old.length)

end Relation

abbrev Store := Std.TreeMap Nat (Std.TreeMap String NatSet)

namespace Store

def get (store : Store) (owner : Nat) (key : String) : NatSet :=
  (store.getD owner ∅).getD key []

def getAny (store : Store) (owner : Nat) : NatSet :=
  (store.getD owner ∅).foldl (fun found _ items => NatSet.union found items) []

def extend (store : Store) (owner : Nat) (key : String) (items : NatSet) : Store × Nat :=
  let old := store.get owner key
  let new := NatSet.union old items
  if new.length = old.length then (store, 0)
  else
    (store.insert owner ((store.getD owner ∅).insert key new), new.length - old.length)

end Store

end Seepage
